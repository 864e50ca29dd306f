import Stencil.Error.Failure
import Stencil.Node.Basic
import Stencil.Value.Basic

namespace Stencil

inductive FrameKind where
  | globals
  | file
  | control
deriving DecidableEq, Repr

structure Frame where
  kind : FrameKind
  bindings : Dict Value
deriving Repr

/-- Signals that have been raised and not yet met. -/
structure Signals where
  stopLoop : Bool
  nextRound : Bool
  eject : Bool
  discard : Bool
deriving DecidableEq, Repr

namespace Signals

def none : Signals :=
  ⟨false, false, false, false⟩

/-- To discard is to eject and to drop the output as well. -/
def of : Signal → Signals
  | .stopLoop => ⟨true, false, false, false⟩
  | .nextRound => ⟨false, true, false, false⟩
  | .eject => ⟨false, false, true, false⟩
  | .discard => ⟨false, false, true, true⟩

def union (a b : Signals) : Signals :=
  ⟨a.stopLoop || b.stopLoop, a.nextRound || b.nextRound, a.eject || b.eject, a.discard || b.discard⟩

def inter (a b : Signals) : Signals :=
  ⟨a.stopLoop && b.stopLoop, a.nextRound && b.nextRound, a.eject && b.eject, a.discard && b.discard⟩

def isNone (a : Signals) : Bool :=
  a = none

def contains (a b : Signals) : Bool :=
  a.inter b = b

def meets (a b : Signals) : Bool :=
  !(a.inter b).isNone

end Signals

/-- The innermost frame comes first. -/
structure Scope where
  frames : List Frame
  signals : Signals
deriving Repr

namespace Scope

def empty : Scope :=
  ⟨[], .none⟩

def depth (s : Scope) : Nat :=
  s.frames.length

def push (s : Scope) (kind : FrameKind) (bindings : Dict Value) : Scope :=
  { s with frames := ⟨kind, bindings⟩ :: s.frames }

def pop (s : Scope) : Scope :=
  { s with frames := s.frames.drop 1 }

def top? (s : Scope) : Option Frame :=
  s.frames.head?

/-- Keeps the outermost frames. -/
def truncate (s : Scope) (depth : Nat) : Scope :=
  { s with frames := s.frames.drop (s.depth - depth) }

def lookup (s : Scope) (name : String) : Option Value :=
  s.frames.findSome? fun f => f.bindings.get? name

def bind (name : String) (v : Value) (f : Frame) : Frame :=
  { f with bindings := f.bindings.insert name v }

/-- Binds a name in the first frame that has the property, when `skip` such frames are passed over. -/
def bindWhere (p : Frame → Bool) (name : String) (v : Value) : Nat → List Frame → Option (List Frame)
  | _, [] => none
  | skip, f :: rest =>
      if p f then
        match skip with
        | 0 => some (bind name v f :: rest)
        | n + 1 => (bindWhere p name v n rest).map (f :: ·)
      else (bindWhere p name v skip rest).map (f :: ·)

def isFile (f : Frame) : Bool :=
  f.kind = .file

def withFrames (s : Scope) : Option (List Frame) → Except Failure Scope
  | some frames => .ok { s with frames }
  | none => .error .noActiveScope

def set (s : Scope) (name : String) (v : Value) : Except Failure Scope :=
  s.withFrames (bindWhere (fun _ => true) name v 0 s.frames)

def setFile (s : Scope) (name : String) (v : Value) : Except Failure Scope :=
  s.withFrames (bindWhere isFile name v 0 s.frames)

def setIncluder (s : Scope) (name : String) (v : Value) : Except Failure Scope :=
  s.withFrames (bindWhere isFile name v 1 s.frames)

def hasIncluder (s : Scope) : Bool :=
  1 < (s.frames.filter isFile).length

def bindGlobal (name : String) (v : Value) : List Frame → Option (List Frame)
  | [] => none
  | [f] => if f.kind = .globals then some [bind name v f] else none
  | f :: rest => (bindGlobal name v rest).map (f :: ·)

def setGlobal (s : Scope) (name : String) (v : Value) : Except Failure Scope :=
  s.withFrames (bindGlobal name v s.frames)

def globals? (s : Scope) : Option (Dict Value) :=
  match s.frames.getLast? with
  | some f => if f.kind = .globals then some f.bindings else none
  | none => none

def raise (s : Scope) (signals : Signals) : Scope :=
  { s with signals := s.signals.union signals }

def clearSignals (s : Scope) : Scope :=
  { s with signals := .none }

/-- The scope that an assignment names. Without an including template that is the global one. -/
def assign (s : Scope) (target : AssignTarget) (name : String) (v : Value) : Except Failure Scope :=
  match target with
  | .here => s.setFile name v
  | .includer => if s.hasIncluder then s.setIncluder name v else s.setGlobal name v
  | .everywhere => s.setGlobal name v

end Scope

end Stencil
