import Ame.Lib.Result
import Mathlib

/-!
# Binary formats

Numbers as little-endian bytes, and streams of bytes that are written at their end and read from their front. A reader is
described by the values it accepts and the bytes it takes for each of them; a writer by the bytes it appends.
-/

namespace Binary

open List Result

/-! ## Numbers -/

/-- The lowest bytes of a number, lowest first. -/
def leBytes : Nat → Nat → List UInt8
  | 0, _ => []
  | width + 1, n => UInt8.ofNat n :: leBytes width (n / 256)

/-- The number that bytes stand for, lowest first. -/
def ofLeBytes : List UInt8 → Nat
  | [] => 0
  | b :: bs => b.toNat + 256 * ofLeBytes bs

@[simp] theorem length_leBytes (width n : Nat) : (leBytes width n).length = width := by
  induction width generalizing n with
  | zero => rfl
  | succ width ih => rw [leBytes, length_cons, ih]

theorem ofLeBytes_lt (bs : List UInt8) : ofLeBytes bs < 256 ^ bs.length := by
  induction bs with
  | nil => simp [ofLeBytes]
  | cons b bs ih =>
    have hb := b.toNat_lt
    rw [ofLeBytes, length_cons]
    omega

/-- Reading undoes writing for a number that fits. -/
theorem ofLeBytes_leBytes {width n : Nat} (h : n < 256 ^ width) : ofLeBytes (leBytes width n) = n := by
  induction width generalizing n with
  | zero =>
    simp only [leBytes, ofLeBytes]
    omega
  | succ width ih =>
    have hlt : n / 256 < 256 ^ width := by
      exact Nat.div_lt_of_lt_mul (by omega)
    rw [leBytes, ofLeBytes, ih hlt, UInt8.toNat_ofNat']
    omega

/-- Writing undoes reading. -/
theorem leBytes_ofLeBytes (bs : List UInt8) : leBytes bs.length (ofLeBytes bs) = bs := by
  induction bs with
  | nil => rfl
  | cons b bs ih =>
    have hb := b.toNat_lt
    have hl : UInt8.ofNat (ofLeBytes (b :: bs)) = b := by
      rw [← UInt8.toNat_inj, UInt8.toNat_ofNat', ofLeBytes]
      omega
    have hh : ofLeBytes (b :: bs) / 256 = ofLeBytes bs := by
      rw [ofLeBytes]
      omega
    rw [length_cons, leBytes, hl, hh, ih]

/-- The bytes of a number of a given width, and the number of such bytes. -/
theorem ofLeBytes_eq_iff {bs : List UInt8} {width n : Nat} (h : bs.length = width) :
    ofLeBytes bs = n ↔ n < 256 ^ width ∧ bs = leBytes width n := by
  subst h
  constructor
  · rintro rfl
    exact ⟨ofLeBytes_lt bs, (leBytes_ofLeBytes bs).symm⟩
  · rintro ⟨hn, hbs⟩
    rw [hbs, ofLeBytes_leBytes hn]

/-- The two's complement of a number of 64 bits. -/
def toUnsigned64 (v : Int) : Nat := (v % 2 ^ 64).toNat

/-- The number of 64 bits that has this two's complement. -/
def ofUnsigned64 (n : Nat) : Int := if n < 2 ^ 63 then n else n - 2 ^ 64

/-- The range of signed numbers of 64 bits. -/
def Signed64 (v : Int) : Prop := -2 ^ 63 ≤ v ∧ v < 2 ^ 63

instance (v : Int) : Decidable (Signed64 v) := inferInstanceAs (Decidable (_ ∧ _))

theorem ofUnsigned64_eq_iff {n : Nat} {v : Int} : n < 2 ^ 64 ∧ ofUnsigned64 n = v ↔ Signed64 v ∧ n = toUnsigned64 v := by
  unfold ofUnsigned64 toUnsigned64 Signed64
  split <;> omega

/-! ## Streams -/

/-- A computation over bytes that may fail: a reader takes them off the front, a writer appends them. -/
abbrev ByteStream (ε α : Type) := StateT (List UInt8) (Except ε) α

section

variable {ε α β : Type}
  {p : ByteStream ε α} {f : α → ByteStream ε β} {input rest : List UInt8} {b : β} {a : α} {condition : Bool} {e : ε}
  {n : Nat} {F : α → Prop} {L format : α → List UInt8}

/-- The stream goes from the input to a value and the bytes that are left. -/
def Takes (p : ByteStream ε α) (input : List UInt8) (a : α) (rest : List UInt8) : Prop := p.run input = .ok (a, rest)

/-- How two steps succeed one after the other. -/
@[simp] theorem takes_bind : Takes (p >>= f) input b rest ↔ ∃ a mid, Takes p input a mid ∧ Takes (f a) mid b rest := by
  constructor
  · intro h
    obtain ⟨⟨a, mid⟩, hp, hf⟩ := bind_ok h
    exact ⟨a, mid, hp, hf⟩
  · rintro ⟨a, mid, hp, hf⟩
    rw [Takes, StateT.run_bind, show p.run input = _ from hp]
    exact hf

@[simp] theorem takes_pure {b : α} : Takes (pure a : ByteStream ε α) input b rest ↔ a = b ∧ input = rest := by
  constructor
  · intro h
    cases h
    exact ⟨rfl, rfl⟩
  · rintro ⟨rfl, rfl⟩
    rfl

@[simp] theorem takes_map {g : α → β} : Takes (g <$> p) input b rest ↔ ∃ a, Takes p input a rest ∧ g a = b := by
  rw [map_eq_pure_bind, takes_bind]
  simp

@[simp] theorem takes_ite {P : Prop} [Decidable P] {p q : ByteStream ε α} :
    Takes (if P then p else q) input a rest ↔ if P then Takes p input a rest else Takes q input a rest := by
  split <;> rfl

/-- Goes on only under a condition. -/
def require (condition : Bool) (e : ε) : Except ε Unit := if condition then .ok () else .error e

@[simp] theorem require_ok {u : Unit} : require condition e = .ok u ↔ condition = true := by
  unfold require
  split <;> simp_all

/-- A step that does not look at the bytes. -/
def lift (x : Except ε α) : ByteStream ε α := fun bytes => x.map fun a => (a, bytes)

@[simp] theorem takes_lift {x : Except ε α} : Takes (lift x) input a rest ↔ x = .ok a ∧ input = rest := by
  cases x with
  | error e => exact ⟨fun h => (by cases h), fun h => (by cases h.1)⟩
  | ok b =>
    constructor
    · intro h
      cases h
      exact ⟨rfl, rfl⟩
    · rintro ⟨h, rfl⟩
      cases h
      rfl

/-! ## Readers -/

/-- Takes a number of bytes, or fails if there are fewer. -/
def take (e : ε) (n : Nat) : ByteStream ε (List UInt8) := fun input =>
  if n ≤ input.length then .ok (input.take n, input.drop n) else .error e

@[simp] theorem takes_take {bytes : List UInt8} :
    Takes (take e n) input bytes rest ↔ bytes.length = n ∧ input = bytes ++ rest := by
  unfold take Takes
  rw [StateT.run]
  split
  · next hle =>
    constructor
    · intro h
      cases h
      exact ⟨length_take_of_le hle, (take_append_drop n input).symm⟩
    · rintro ⟨rfl, rfl⟩
      rw [take_left, drop_left]
  · next hgt =>
    refine ⟨fun h => (by cases h), ?_⟩
    rintro ⟨rfl, rfl⟩
    exact absurd (by simp) hgt

/-- The reader accepts the values that fit and takes the bytes that the format has for them. A record is read by rewriting with
what its fields read, which leaves only the order of the facts. -/
abbrev Reads (p : ByteStream ε α) (Fits : α → Prop) (format : α → List UInt8) : Prop :=
  ∀ input a rest, Takes p input a rest ↔ Fits a ∧ input = format a ++ rest

/-- Reads a code and what it stands for. -/
theorem Reads.decode {decode : α → Except ε β} {code : β → α}
    (hp : Reads p F L) (hc : ∀ a b, decode a = .ok b ↔ a = code b) (hf : ∀ b, F (code b)) :
    Reads (p >>= fun a => lift (decode a)) (fun _ => True) (fun b => L (code b)) := by
  intro input b rest
  simp [hp, hc, hf]

/-- Reads values one after the other. -/
def many (p : ByteStream ε α) : Nat → ByteStream ε (List α)
  | 0 => pure []
  | n + 1 => do
    let a ← p
    let rest ← many p n
    return a :: rest

theorem Reads.many {Fits : α → Prop} (h : Reads p Fits format) (n : Nat) :
    Reads (many p n) (fun l => l.length = n ∧ ∀ a ∈ l, Fits a) (List.flatMap format) := by
  induction n with
  | zero =>
    intro input l rest
    cases l <;> simp [Binary.many]
  | succ n ih =>
    intro input l rest
    cases l <;> simp [Binary.many, h, ih]
    tauto

/-- Reads values one after the other and keeps a state along the way. -/
def manyFrom {σ : Type} (step : σ → ByteStream ε (α × σ)) : Nat → σ → ByteStream ε (List α × σ)
  | 0, s => pure ([], s)
  | n + 1, s => do
    let (a, s) ← step s
    let (rest, s) ← manyFrom step n s
    return (a :: rest, s)

/-- A loop whose rounds each keep the state within bounds, when the state only ever moves towards them. -/
theorem Reads.manyFrom {σ : Type} {step : σ → ByteStream ε (α × σ)} {next : σ → α → σ}
    {Bounded : σ → Prop} (hm : ∀ s a, Bounded (next s a) → Bounded s)
    (hste : ∀ s, Bounded s → Reads (step s) (fun r => F r.1 ∧ r.2 = next s r.1 ∧ Bounded r.2) (fun r => L r.1))
    (n : Nat) (s : σ) (hs : Bounded s) : Reads (manyFrom step n s)
      (fun r => (r.1.length = n ∧ ∀ a ∈ r.1, F a) ∧ r.2 = r.1.foldl next s ∧ Bounded r.2) (fun r => r.1.flatMap L) := by
  have hba (l : List α) (s : σ) (h : Bounded (l.foldl next s)) : Bounded s := by
    induction l generalizing s with
    | nil => exact h
    | cons a l ih => exact hm s a (ih _ h)
  induction n generalizing s with
  | zero =>
    rintro input ⟨l, s'⟩ rest
    cases l <;> simp [Binary.manyFrom, eq_comm]
    rintro rfl rfl
    exact hs
  | succ n ih =>
    rintro input ⟨l, s'⟩ rest
    cases l with
    | nil => simp [Binary.manyFrom]
    | cons a l =>
      simp only [Binary.manyFrom, takes_bind, hste s hs, takes_pure, Prod.exists, existsAndEq, Prod.mk.injEq, cons.injEq]
      by_cases hb : Bounded (next s a)
      · simp [ih _ hb, hb]
        tauto
      · simp [hb]
        rintro - - - rfl h
        exact absurd (hba _ _ h) hb

/-! ## Writers -/

/-- The writer appends these bytes. -/
@[simp] abbrev Appends (w : ByteStream ε Unit) (bytes : List UInt8) : Prop :=
  ∀ written, w.run written = .ok ((), written ++ bytes)

/-- Appends bytes. -/
def append (bytes : List UInt8) : ByteStream ε Unit := fun written => .ok ((), written ++ bytes)

@[simp] theorem appends_append (bytes : List UInt8) : Appends (append bytes : ByteStream ε Unit) bytes := fun _ => rfl

/-- What follows a writer goes on with what the writer left. -/
theorem ok_bind (a : α) (f : α → Except ε β) : (Except.ok a >>= f) = f a := rfl

/-- A loop of writers. -/
theorem appends_forM {w : α → ByteStream ε Unit} {l : List α}
    (h : ∀ a ∈ l, Appends (w a) (format a)) : Appends (forM l w) (l.flatMap format) := by
  induction l with
  | nil =>
    intro written
    rw [flatMap_nil, append_nil]
    rfl
  | cons a l ih =>
    intro written
    obtain ⟨ha, hl⟩ := forall_mem_cons.mp h
    rw [flatMap_cons, ← append_assoc, ← ih hl, ← ok_bind ((), _) (fun p => (forM l w).run p.2), ← ha]
    rfl

end

end Binary
