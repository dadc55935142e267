import NodeReth.Lib.PushNew
import NodeReth.Batcher.Config

/-!
# The artifact ledger

`DaArtifacts` of `batcher/encoder/src/artifact.rs`: immutable blobs and calldata frames in creation
order, each ready, leased to one in-flight submission, or confirmed. Identifiers of artifacts and
submissions are counters.
-/

namespace NodeReth

open PushNew

abbrev ArtifactId := ℕ

abbrev SubmissionId := ℕ

inductive ArtifactState
  | ready
  | pending
  | confirmed
  deriving DecidableEq, Repr

/-- One blob of frames, or one frame in calldata. -/
inductive DaArtifactPayload
  | blob (frames : List Frame)
  | calldata (frame : Frame)
  deriving DecidableEq

namespace DaArtifactPayload

/-- The frames that a payload carries, in order. -/
def frames : DaArtifactPayload → List Frame
  | blob frames => frames
  | calldata frame => [frame]

def frameCount : DaArtifactPayload → ℕ
  | blob frames => frames.length
  | calldata _ => 1

def isBlob : DaArtifactPayload → Bool
  | blob _ => true
  | calldata _ => false

end DaArtifactPayload

structure DaArtifact where
  id : ArtifactId
  payload : DaArtifactPayload
  /-- The channels that contributed frames and are not yet safe. -/
  channelIds : List ChannelId
  state : ArtifactState
  deriving DecidableEq

/-- The data of one L1 transaction. -/
inductive SubmissionPayload
  | blobs (blobs : List (List Frame))
  | calldata (frame : Frame)
  deriving DecidableEq

structure BatchSubmission where
  id : SubmissionId
  payload : SubmissionPayload
  deriving DecidableEq

structure DaArtifacts where
  artifacts : List DaArtifact
  nextId : ArtifactId

namespace DaArtifacts

def new : DaArtifacts := ⟨[], 0⟩

variable (s : DaArtifacts)

def push (payload : DaArtifactPayload) (channelIds : List ChannelId) :
    DaArtifacts where
  artifacts := s.artifacts ++ [⟨s.nextId, payload, channelIds, .ready⟩]
  nextId := s.nextId + 1

def hasReady : Bool := s.artifacts.any (·.state = .ready)

def readyBlobCount : ℕ :=
  (s.artifacts.filter fun a => decide (a.state = .ready) && a.payload.isBlob).length

/-- Leases ready blobs up to `maximum`, as far as no ready calldata stands between them: the
leased artifacts, and the ledger afterwards. -/
def leaseBlobs : ℕ → List DaArtifact → List DaArtifact × List DaArtifact
  | 0, as => ([], as)
  | _ + 1, [] => ([], [])
  | maximum + 1, a :: as =>
    if a.state = .ready then
      match a.payload with
      | .calldata _ => ([], a :: as)
      | .blob _ =>
        let (leased, rest) := leaseBlobs maximum as
        (a :: leased, { a with state := .pending } :: rest)
    else
      let (leased, rest) := leaseBlobs (maximum + 1) as
      (leased, a :: rest)

def leaseCalldata : List DaArtifact → List DaArtifact
  | [] => []
  | a :: as => if a.state = .ready then { a with state := .pending } :: as else a :: leaseCalldata as

/-- Leases the next ready artifacts as one transaction. -/
def lease (submissionId : SubmissionId) (maxBlobs : ℕ) :
    Option (BatchSubmission × List ArtifactId × DaArtifacts) :=
  match s.artifacts.find? (·.state = .ready) with
  | none => none
  | some first =>
    match first.payload with
    | .blob _ =>
      let (leased, as) := leaseBlobs maxBlobs s.artifacts
      some (⟨submissionId, .blobs (leased.map (·.payload.frames))⟩, leased.map (·.id),
        { s with artifacts := as })
    | .calldata frame =>
      some (⟨submissionId, .calldata frame⟩, [first.id],
        { s with artifacts := leaseCalldata s.artifacts })

/-- Every listed artifact is still leased to a submission. -/
def allPending (ids : List ArtifactId) : Bool :=
  ids.all fun id => s.artifacts.any fun a => decide (a.id = id) && decide (a.state = .pending)

/-- An artifact in a state, if it is listed. -/
def restate (ids : List ArtifactId) (state : ArtifactState) (a : DaArtifact) : DaArtifact :=
  if a.id ∈ ids then { a with state := state } else a

def setState (ids : List ArtifactId) (state : ArtifactState) : DaArtifacts :=
  { s with artifacts := s.artifacts.map (restate ids state) }

/-- Confirms the listed artifacts and returns their channels, each once. -/
def confirm (ids : List ArtifactId) : List ChannelId × DaArtifacts :=
  let selected := s.artifacts.filter (·.id ∈ ids)
  let channelIds := selected.foldl (fun acc a => pushAllNew acc a.channelIds) []
  (channelIds, s.setState ids .confirmed)

/-- Returns the listed artifacts to ready, with their total frame count. -/
def requeue (ids : List ArtifactId) : ℕ × DaArtifacts :=
  (((s.artifacts.filter (·.id ∈ ids)).map (·.payload.frameCount)).sum, s.setState ids .ready)

/-- The channel has artifacts and all of them are confirmed. -/
def allConfirmedFor (channelId : ChannelId) : Bool :=
  match s.artifacts.filter (channelId ∈ ·.channelIds) with
  | [] => false
  | a :: as => decide (a.state = .confirmed) && as.all (·.state = .confirmed)

/-- Drops safe channel references, and artifacts left without any channel. -/
def pruneChannels (channelIds : List ChannelId) : DaArtifacts :=
  { s with
    artifacts := (s.artifacts.map fun a =>
      { a with channelIds := a.channelIds.filter (· ∉ channelIds) }).filter (!·.channelIds.isEmpty) }

def invalidate (ids : List ArtifactId) : DaArtifacts :=
  { s with artifacts := s.artifacts.filter (·.id ∉ ids) }

def contains (id : ArtifactId) : Bool := s.artifacts.any (·.id = id)

def clear : DaArtifacts := { s with artifacts := [] }

end DaArtifacts

end NodeReth
