import Ame.Domain.Text
import Ame.Lib.Utf16
import Mathlib

/-!
# Windows paths of the journal broker (`journal_broker/wire/path.rs`)

Paths arrive as UTF-16. An absolute path is a drive and components separated by backslashes; a path relative to a root is
written with slashes. How two names compare in a directory is a property of that directory, and comparing them without regard
to case is left to the operating system: `ordinalEquals` stands for its function.
-/

namespace Ame

/-- `WireError` -/
inductive WireError where
  | invalidMagic
  | unsupportedVersion (version : Nat)
  | unknownKind (kind : Nat)
  | unexpectedEnd
  | trailingBytes
  | lengthExceeded
  | lengthOverflow
  | invalidUtf8
  | invalidUtf16
  | invalidValue (field : String)
  | nameComparisonUnavailable
  deriving DecidableEq, Repr

/-- `MAX_PATH_UTF16_UNITS` -/
def maxPathUtf16Units : Nat := 32767

/-- `MAX_PATH_DEPTH` -/
def maxPathDepth : Nat := 256

/-- `NameComparisonSemantics` -/
inductive NameComparisonSemantics where
  | ordinalCaseSensitive
  | windowsOrdinalIgnoreCase
  deriving DecidableEq, Repr

/-- `PathComponent` -/
structure PathComponent where
  display : String
  utf16 : List UInt16
  deriving DecidableEq, Repr

/-- `NormalizedWindowsPath` -/
structure NormalizedWindowsPath where
  driveKey : Char
  components : List PathComponent
  deriving DecidableEq, Repr

/-- `RootRelativeScope` -/
inductive RootRelativeScope where
  | root
  | relative (path : String)
  deriving DecidableEq, Repr

/-! ## Components -/

/-- `eq_ignore_ascii_case` -/
def eqIgnoreAsciiCase (a b : List Char) : Bool := a.map Char.toLower == b.map Char.toLower

/-- `is_reserved_device_name` -/
def isReservedDeviceName (component : String) : Bool :=
  let base := (component.toList.splitOn '.').headD component.toList
  ["CON", "PRN", "AUX", "NUL"].any (fun reserved => eqIgnoreAsciiCase base reserved.toList) ||
    match base with
    | [a, b, c, d] =>
      (eqIgnoreAsciiCase [a, b, c] "COM".toList || eqIgnoreAsciiCase [a, b, c] "LPT".toList) && decide ('1' ≤ d ∧ d ≤ '9')
    | _ => false

/-- The characters a Windows name cannot hold. -/
def isForbiddenInName (c : Char) : Bool :=
  decide (c < ' ') || ['<', '>', ':', '"', '|', '?', '*'].contains c

/-- `validate_component` -/
def validateComponent (component : String) : Except WireError Unit :=
  if component.toList.isEmpty || component == "." || component == ".." ||
      (component.toList.getLast?.any fun c => c == ' ' || c == '.') ||
      component.toList.any isForbiddenInName || isReservedDeviceName component then
    .error (.invalidValue "path_component")
  else .ok ()

/-! ## Relative paths -/

/-- The loop of `validate_relative_path` over the components; `depth` of them are done. -/
def validateRelativeComponents : Nat → List String → Except WireError Unit
  | _, [] => .ok ()
  | depth, component :: rest => do
    validateComponent component
    if maxPathDepth < depth + 1 then throw .lengthExceeded
    validateRelativeComponents (depth + 1) rest

/-- `validate_relative_path` -/
def validateRelativePath (path : String) : Except WireError Unit :=
  if path.toList.isEmpty || decide (maxPathUtf16Units < (Utf16.encode path.toList).length) || startsWith path '/' ||
      path.toList.getLast? == some '/' || decide (['/', '/'] <:+: path.toList) || contains path '\\' then
    .error (.invalidValue "relative_path")
  else validateRelativeComponents 0 (split '/' path)

/-! ## Absolute paths -/

/-- The component a validated name becomes. -/
def pathComponent (name : List Char) : PathComponent := ⟨String.ofList name, Utf16.encode name⟩

/-- The components of what follows the drive. -/
def normalizeRemainder (remainder : List Char) : Except WireError (List PathComponent) :=
  if remainder.isEmpty then .ok []
  else
    let raw := remainder.splitOn '\\'
    if raw.any (·.isEmpty) || decide (maxPathDepth < raw.length) then .error (.invalidValue "absolute_path")
    else raw.mapM fun name => do
      validateComponent (String.ofList name)
      return pathComponent name

/-- `normalize_absolute_path` on the decoded path. -/
def normalizeDecoded (decoded : List Char) : Except WireError NormalizedWindowsPath :=
  if decoded.contains '\x00' || decoded.contains '/' then .error (.invalidValue "absolute_path")
  else
    match decoded with
    | [] => .error (.invalidValue "drive_designator")
    | drive :: rest =>
      if !drive.isAlpha then .error (.invalidValue "drive_designator")
      else
        match rest with
        | ':' :: '\\' :: remainder =>
          if remainder.head? == some '\\' || remainder.getLast? == some '\\' then .error (.invalidValue "absolute_path")
          else do return ⟨drive.toUpper, ← normalizeRemainder remainder⟩
        | _ => .error (.invalidValue "absolute_path")

/-- `normalize_absolute_path`; `validate_root_path` and `normalize_backend_path` are the same function. -/
def normalizeAbsolutePath (path : List UInt16) : Except WireError NormalizedWindowsPath :=
  if path.isEmpty || decide (maxPathUtf16Units < path.length) then .error .lengthExceeded
  else
    match Utf16.decode path with
    | none => .error .invalidUtf16
    | some decoded => normalizeDecoded decoded

/-! ## A path under a root -/

section

/-- How the system compares two names without regard to case, which may fail. -/
abbrev OrdinalEquals := List UInt16 → List UInt16 → Except WireError Bool

variable (ordinalEquals : OrdinalEquals)

/-- `component_equals` -/
def componentEquals (left right : List UInt16) : NameComparisonSemantics → Except WireError Bool
  | .ordinalCaseSensitive => .ok (left == right)
  | .windowsOrdinalIgnoreCase => ordinalEquals left right

/-- The loop of `scope_under_root`: whether the root's components come first in the path. -/
def componentsMatch : List PathComponent → List PathComponent → List NameComparisonSemantics → Except WireError Bool
  | candidate :: path, component :: root, comparison :: comparisons => do
    if ← componentEquals ordinalEquals candidate.utf16 component.utf16 comparison then
      componentsMatch path root comparisons
    else return false
  | _, _, _ => .ok true

/-- `scope_under_root`: the path relative to the root, if it lies in it. -/
def scopeUnderRoot (path root : NormalizedWindowsPath) (comparisons : List NameComparisonSemantics) :
    Except WireError (Option RootRelativeScope) :=
  if comparisons.length ≠ root.components.length then .error .nameComparisonUnavailable
  else if path.driveKey ≠ root.driveKey ∨ path.components.length < root.components.length then .ok none
  else do
    if ← componentsMatch ordinalEquals path.components root.components comparisons then
      if path.components.length = root.components.length then return some .root
      else
        let names := (path.components.drop root.components.length).map (·.display.toList)
        return some (.relative (String.ofList (['/'].intercalate names)))
    else return none

end

/-! ## From a root and a relative path back to a path -/

/-- `BackendError` -/
inductive BackendError where
  | rootUnavailable
  | journalUnavailable
  | journalDiscontinuous
  | volumeMismatch
  | recordUnsupported
  | evidenceLimitExceeded
  | timedOut
  | cancelled
  | unavailable
  deriving DecidableEq, Repr

/-- The backslash as a code unit. -/
def backslashUnit : UInt16 := 92

/-- The text `join_root_relative` builds. -/
def joinedPath (root : List UInt16) (relative : String) : List UInt16 :=
  (if root.getLast? = some backslashUnit then root else root ++ [backslashUnit]) ++ Utf16.encode relative.toList

/-- `join_root_relative` (`windows/usn.rs`) -/
def joinRootRelative (root : List UInt16) (relative : String) : Except BackendError (List UInt16) :=
  let path := joinedPath root relative
  if maxPathUtf16Units < path.length then .error .recordUnsupported
  else
    match normalizeAbsolutePath path with
    | .ok _ => .ok path
    | .error _ => .error .recordUnsupported

end Ame
