import Ame.Domain.Catalog
import Ame.Lib.LinkedMap

/-!
# The preview store (`library_preview_store.dart`)

The store keeps the last published preview of the locations that are on screen, and a bounded number of ready previews and
failures beyond that. Views ask it for the asset they show and listen to the channel of its location.

Of an asset the model has the fields that the store reads and those that a preview sets; the others pass through unchanged. The
source of a stored preview is computed from its asset. The order of `_entries` decides nothing but the order of notifications.
-/

namespace Ame

/-- `LibraryPreviewStatus` -/
inductive LibraryPreviewStatus where
  | pending | ready | failed
  deriving DecidableEq

/-- What a preview sets in an asset: the arguments of `withPreview`. -/
structure LibraryPreviewFields where
  previewPath : String
  (width height : Int)
  previewStatus : LibraryPreviewStatus
  (previewIssueCode previewIssueMessage : Option String)

/-- `LibraryAsset` -/
structure LibraryAsset extends LibraryPreviewFields where
  (assetId locationId rootId activeScanId sourcePath : String)
  (fileSize modifiedUnixMs : Int)
  sourceRevision : Option SourceRevisionEvidence
  sourceGeneration : Int
  fileIdentity : Option FileIdentityEvidence

/-- `withPreview` -/
def LibraryAsset.withPreview (asset : LibraryAsset) (preview : LibraryPreviewFields) : LibraryAsset :=
  { asset with toLibraryPreviewFields := preview }

/-- `LibraryPreviewSourceIdentity` -/
structure LibraryPreviewSourceIdentity where
  (assetId locationId rootId activeScanId : String)
  sourcePath : Option String
  (fileSize modifiedUnixMs : Int)
  sourceRevision : Option SourceRevisionEvidence
  sourceGeneration : Int
  fileIdentity : Option FileIdentityEvidence
  deriving DecidableEq

/-- `LibraryPreviewSourceIdentity.fromAsset` -/
def LibraryAsset.source (asset : LibraryAsset) : LibraryPreviewSourceIdentity :=
  { asset with sourcePath := if asset.fileIdentity.isNone then some asset.sourcePath else none }

/-- `isCompatibleWith`: the sources are equal, but a revision that either lacks is not compared. -/
def LibraryPreviewSourceIdentity.isCompatibleWith (source : LibraryPreviewSourceIdentity) (asset : LibraryAsset) : Bool :=
  let other := asset.source
  let revisionsAreCompatible :=
    source.sourceRevision.isNone || other.sourceRevision.isNone || other.sourceRevision == source.sourceRevision
  { other with sourceRevision := none } == { source with sourceRevision := none } && revisionsAreCompatible

/-- Stored previews by location. -/
abbrev PreviewCache := LinkedMap String LibraryAsset

/-- `LibraryPreviewStore`: its caches, and the locations that have a channel. -/
structure LibraryPreviewStore where
  (entries ready failures : PreviewCache)
  channels : List String

namespace LibraryPreviewStore

/-- A new store. -/
def new : LibraryPreviewStore := ⟨.empty, .empty, .empty, []⟩

section

variable (s : LibraryPreviewStore) (maxRetainedFailures maxRetainedReady : Nat)

/-- The stored preview of a location. -/
def stored (locationId : String) : Option LibraryAsset :=
  (s.entries.get? locationId).or ((s.ready.get? locationId).or (s.failures.get? locationId))

/-- The asset that `resolve` returns. -/
def resolve (fallback : LibraryAsset) : LibraryAsset :=
  match (s.stored fallback.locationId).filter (·.source.isCompatibleWith fallback) with
  | some preview => fallback.withPreview preview.toLibraryPreviewFields
  | none => fallback

/-- The store after `resolve`: a ready preview that is shown becomes the most recent. -/
def touch (fallback : LibraryAsset) : LibraryPreviewStore :=
  match (s.stored fallback.locationId).filter (·.source.isCompatibleWith fallback), s.ready.get? fallback.locationId with
  | some _, some recent => { s with ready := s.ready.renew fallback.locationId recent }
  | _, _ => s

/-- The channels among the given locations that are notified: `_channels[locationId]?.add(null)`. -/
def notify (locationIds : List String) : List String := locationIds.filter (· ∈ s.channels)

/-- The cache of the previews of one status after a publication, and the locations without an entry that it evicts. -/
def cached (status : LibraryPreviewStatus) (limit : Nat) (asset : LibraryAsset) (cache : PreviewCache) :
    PreviewCache × List String :=
  if asset.previewStatus = status then
    let added := cache.renew asset.locationId asset
    let kept := added.evict limit
    (kept, added.keys.filter fun id => id ∉ kept.keys ∧ id ∉ s.entries.keys)
  else (cache.remove asset.locationId, [])

/-- `publish` -/
def publish (asset : LibraryAsset) : LibraryPreviewStore × List String :=
  let s := { s with entries := s.entries.renew asset.locationId asset }
  let (ready, evictedReady) := s.cached .ready maxRetainedReady asset s.ready
  let (failures, evictedFailures) := s.cached .failed maxRetainedFailures asset s.failures
  ({ s with ready := ready, failures := failures }, s.notify (evictedReady ++ evictedFailures ++ [asset.locationId]))

/-- `retain` -/
def retain (locationIds : List String) : LibraryPreviewStore × List String :=
  let removedIds := s.entries.keys.filter fun id => id ∉ locationIds ∧ id ∉ s.ready.keys ∧ id ∉ s.failures.keys
  ({ s with entries := s.entries.filter (·.1 ∈ locationIds) }, s.notify removedIds)

/-- `clear` -/
def clear : LibraryPreviewStore × List String :=
  ({ new with channels := s.channels }, s.notify (s.entries.keys ++ s.ready.keys ++ s.failures.keys))

/-- `invalidateRoot` -/
def invalidateRoot (rootId : String) : LibraryPreviewStore × List String :=
  let removed := fun cache : PreviewCache => (cache.filter (·.2.source.rootId = rootId)).keys
  let kept := fun cache : PreviewCache => cache.filter (·.2.source.rootId ≠ rootId)
  ({ s with entries := kept s.entries, ready := kept s.ready, failures := kept s.failures },
    s.notify (removed s.entries ++ removed s.ready ++ removed s.failures))

end

end LibraryPreviewStore

/-- A call on the store; the last two are `changesFor`, and the end of a channel that nobody listens to. -/
inductive PreviewCall where
  | publish (asset : LibraryAsset)
  | retain (locationIds : List String)
  | resolve (fallback : LibraryAsset)
  | clear
  | invalidateRoot (rootId : String)
  | changesFor (locationId : String)
  | closeChannel (locationId : String)

section

variable (maxRetainedFailures maxRetainedReady : Nat)

/-- The store after a call, and the channels that the call notified. -/
def LibraryPreviewStore.apply (s : LibraryPreviewStore) : PreviewCall → LibraryPreviewStore × List String
  | .publish asset => s.publish maxRetainedFailures maxRetainedReady asset
  | .retain locationIds => s.retain locationIds
  | .resolve fallback => (s.touch fallback, [])
  | .clear => s.clear
  | .invalidateRoot rootId => s.invalidateRoot rootId
  | .changesFor locationId => ({ s with channels := locationId :: s.channels }, [])
  | .closeChannel locationId => ({ s with channels := s.channels.filter (· ≠ locationId) }, [])

/-- The store after some calls. -/
def LibraryPreviewStore.run (calls : List PreviewCall) : LibraryPreviewStore :=
  calls.foldl (fun s call => (s.apply maxRetainedFailures maxRetainedReady call).1) new

end

/-- The most recent publications, by location, after one more call. -/
def PreviewCall.record (last : String → Option LibraryAsset) : PreviewCall → String → Option LibraryAsset
  | .publish asset => fun locationId => if asset.locationId = locationId then some asset else last locationId
  | _ => last

/-- The most recent publication of each location. -/
def lastPublication (calls : List PreviewCall) : String → Option LibraryAsset :=
  calls.foldl PreviewCall.record fun _ => none

end Ame
