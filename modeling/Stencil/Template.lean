import Stencil.Node.Instruction
import Stencil.Node.Basic

namespace Stencil

structure Level where
  block : Block
  offset : Nat
  body : List Node
deriving Repr

def Level.toNode (l : Level) : Node :=
  match l.block with
  | .capture name => .capture name l.body l.offset
  | .loop name source => .loop name source l.body l.offset
  | .branch arms condition _ => .branch (arms ++ [(condition, l.body)]) l.offset

/-- The innermost level comes first. -/
structure Draft where
  levels : List Level
  nodes : List Node
deriving Repr

namespace Draft

def empty : Draft :=
  ⟨[], []⟩

def place (d : Draft) (n : Node) : Draft :=
  match d.levels with
  | [] => { d with nodes := d.nodes ++ [n] }
  | l :: rest => { d with levels := { l with body := l.body ++ [n] } :: rest }

def nextArm (d : Draft) (condition : Expr) (isLast : Bool) : Option Draft :=
  match d.levels with
  | ⟨.branch arms current false, offset, body⟩ :: rest =>
      some { d with levels := ⟨.branch (arms ++ [(current, body)]) condition isLast, offset, []⟩ :: rest }
  | _ => none

def close (d : Draft) (kind : BlockKind) : Option Draft :=
  match d.levels with
  | l :: rest => if l.block.kind = kind then some (place { d with levels := rest } l.toNode) else none
  | [] => none

def orUnexpected (keyword : String) (offset : Nat) : Option Draft → Parsing Draft
  | some d => .ok d
  | none => .error ((ParseFault.unexpectedTag keyword).at offset)

def apply (d : Draft) : Instruction → Parsing Draft
  | .place n => .ok (d.place n)
  | .begin block offset => .ok { d with levels := ⟨block, offset, []⟩ :: d.levels }
  | .otherwiseIf condition offset => orUnexpected "elsif" offset (d.nextArm condition false)
  | .otherwise offset =>
      orUnexpected "else" offset (d.nextArm (.literal (.bool true) offset) true)
  | .finish kind offset => orUnexpected ("end" ++ kind.keyword) offset (d.close kind)

def step (d : Draft) (r : Region) : Parsing Draft := do
  d.apply (← Instruction.ofRegion r)

def finish (d : Draft) : Parsing (List Node) :=
  match d.levels with
  | [] => .ok d.nodes
  | l :: _ => .error ((ParseFault.unclosedBlock l.block.kind.keyword).at l.offset)

end Draft

/-- The nodes of a source whose line ends are newlines. -/
def parseNodes (skipNewline : Bool) (source : String) : Parsing (List Node) := do
  let d ← (Region.scan skipNewline 0 source.toList).foldlM Draft.step Draft.empty
  d.finish

structure ParserOptions where
  /-- One newline right after a tag is left out. -/
  skipNewline : Bool
  /-- Layout around tags is left out. -/
  stripLayout : Bool
deriving DecidableEq, Repr

def ParserOptions.plain : ParserOptions :=
  ⟨false, false⟩

/-- The source has newlines only as line ends. -/
structure Template where
  source : String
  path : Option String
  nodes : List Node
deriving Repr

namespace Template

def name (t : Template) : String :=
  t.path.getD "<string>"

def position (t : Template) (offset : Nat) : Text.Position :=
  Text.position t.source offset

def lineAt (t : Template) (offset : Nat) : String :=
  Text.lineAt t.source offset

def stripLayout (t : Template) : Template :=
  { t with nodes := Node.stripAll false false t.nodes }

/-- The path is used in messages only. -/
def parse (options : ParserOptions) (path : Option String) (text : String) : Parsing Template :=
  let source := Text.withUnixLines text
  match parseNodes options.skipNewline source with
  | .ok nodes =>
      let t : Template := ⟨source, path, nodes⟩
      .ok (if options.stripLayout then t.stripLayout else t)
  | .error e =>
      let p := Text.position source e.offset
      .error (e.located p.line p.column path)

end Template

end Stencil
