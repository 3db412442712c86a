import Ircu.Text.Basic

/-!
Batches and labels: the contexts of `batch.c` and `multiline.c`.

There are three of them, each in static variables: the answer to a labelled command,
the batch that a command answers one client with, and the batch of a long message that
goes out to every recipient that asked for `draft/multiline`. `batchCurrent` asks them
in a fixed order which batch a client is in.
-/

namespace Ircu.Batch

def LABELLEN : ℕ := 64
def BATCHIDLEN : ℕ := 16

/-- A string in an array of `n + 1` bytes. -/
abbrev Text (n : ℕ) := {l : List UInt8 // l.length ≤ n}

/-- `ircd_strncpy` into such an array. -/
def Text.copy (n : ℕ) (l : List UInt8) : Text n := ⟨l.take n, List.length_take_le n l⟩

def Text.empty {n : ℕ} : Text n := ⟨[], Nat.zero_le n⟩

structure Caps where
  serverTime : Bool
  messageTags : Bool
  labeledResponse : Bool
  batch : Bool
  multiline : Bool
deriving DecidableEq

structure Peer where
  isServer : Bool
  myConnect : Bool
  caps : Caps
deriving DecidableEq

structure LabelCtx (κ : Type) where
  client : Option κ
  label : Text LABELLEN
  batch : Text BATCHIDLEN
  isOpen : Bool
  emitting : Bool
  emitLabel : Bool
deriving DecidableEq

structure OutCtx (κ : Type) where
  client : Option κ
  id : Text BATCHIDLEN
  isOpen : Bool
  emitting : Bool
deriving DecidableEq

structure FanoutCtx where
  id : Text BATCHIDLEN
  isOpen : Bool
  emitting : Bool
  concat : Bool
deriving DecidableEq

/-- The three contexts, and `batch_seq`. -/
structure Ctx (κ : Type) where
  label : LabelCtx κ
  out : OutCtx κ
  fanout : FanoutCtx
  seq : ℕ
deriving DecidableEq

variable {κ : Type}

def LabelCtx.clear : LabelCtx κ := ⟨none, .empty, .empty, false, false, false⟩

def OutCtx.clear : OutCtx κ := ⟨none, .empty, false, false⟩

def FanoutCtx.clear : FanoutCtx := ⟨.empty, false, false, false⟩

def Ctx.init : Ctx κ := ⟨.clear, .clear, .clear, 0⟩

/-- `batch_seq` after the next identifier has been taken. -/
def Ctx.nextSeq (x : Ctx κ) : ℕ := (x.seq + 1) % 2 ^ 64

def Ctx.nextId (x : Ctx κ) : Text BATCHIDLEN := .copy BATCHIDLEN (decimal x.nextSeq)

variable (peers : κ → Peer) (x : Ctx κ) (dst : κ)

/-- The capability `CAP_MULTILINE`, as `multiline_batch_for` asks for it. -/
def hasMultiline : Bool := !(peers dst).isServer && (peers dst).caps.multiline

def multilineBatchFor : Option (Text BATCHIDLEN) :=
  if !x.fanout.isOpen || x.fanout.emitting then none
  else if hasMultiline peers dst then some x.fanout.id
  else none

def multilineConcatFor : Bool :=
  if !x.fanout.concat || x.fanout.emitting then false else hasMultiline peers dst

/-- The contexts while `batch_out_open` sends the line that opens the batch. -/
def outOpening : Ctx κ := { x with seq := x.nextSeq, out := ⟨some dst, x.nextId, true, true⟩ }

/-- The contexts while `batch_out_close` sends the line that closes it. -/
def outClosing : Ctx κ := { x with out := { x.out with emitting := true } }

/-- The contexts while `batch_fanout_open` sends the lines that open the batch. -/
def fanOpening : Ctx κ :=
  { x with
    seq := x.nextSeq
    fanout := { x.fanout with id := x.nextId, isOpen := true, emitting := true } }

/-- The contexts while `batch_fanout_close` sends the lines that close it. -/
def fanClosing : Ctx κ := { x with fanout := { x.fanout with emitting := true } }

variable [DecidableEq κ]

def batchCurrent : Option (Text BATCHIDLEN) :=
  if x.out.isOpen ∧ ¬x.out.emitting ∧ x.out.client = some dst then some x.out.id
  else if x.label.isOpen ∧ ¬x.label.emitting ∧ x.label.client = some dst then some x.label.batch
  else multilineBatchFor peers x dst

def batchLabelTag : Option (Text LABELLEN) :=
  if ¬x.label.emitLabel ∨ x.label.client ≠ some dst then none else some x.label.label

/-! ### The labelled response -/

/-- The label of a command is answered: its sender is a client of this server with the
capabilities for it. -/
def canLabel (cptr : κ) (label : List UInt8) : Bool :=
  label ≠ [] && (peers cptr).myConnect && !(peers cptr).isServer &&
    (peers cptr).caps.labeledResponse && (peers cptr).caps.batch

def labelBegin (cptr : κ) (label : List UInt8) : Ctx κ :=
  { x with
    label :=
      if canLabel peers cptr label then
        ⟨some cptr, .copy LABELLEN label, .empty, false, false, false⟩
      else .clear }

/-- The condition of `label_before_send`: this is the first message of the answer. -/
def LabelPending : Prop :=
  x.label.client = some dst ∧ x.label.isOpen = false ∧ x.label.emitting = false

instance : Decidable (LabelPending x dst) := inferInstanceAs (Decidable (_ ∧ _))

/-- The contexts while `label_before_send` sends the line that opens the batch. -/
def labelOpening : Ctx κ :=
  { x with
    seq := x.nextSeq
    label :=
      { x.label with batch := x.nextId, isOpen := true, emitting := true, emitLabel := true } }

/-- The contexts while `label_end` sends the line that closes the batch. -/
def labelClosing : Ctx κ := { x with label := { x.label with emitting := true } }

/-- The contexts while `label_end` sends the bare `ACK`. -/
def labelAcking : Ctx κ := { x with label := { x.label with emitting := true, emitLabel := true } }

/-- The contexts behind `label_before_send`. -/
def labelBeforeSend : Ctx κ :=
  if LabelPending x dst then
    { labelOpening x with
      label := { (labelOpening x).label with emitLabel := false, emitting := false } }
  else x

end Ircu.Batch
