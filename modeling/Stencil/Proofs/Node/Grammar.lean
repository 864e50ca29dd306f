import Stencil.Template

namespace Stencil

/-- What a keyword means to the blocks around it. -/
inductive Mark where
  | plain
  | opens (kind : BlockKind)
  | elsif
  | otherwise
  | closes (kind : BlockKind)
deriving DecidableEq

namespace Mark

def ofKeyword : String → Mark
  | "capture" => .opens .capture
  | "for" => .opens .loop
  | "if" => .opens .branch
  | "elsif" => .elsif
  | "else" => .otherwise
  | "endcapture" => .closes .capture
  | "endfor" => .closes .loop
  | "endif" => .closes .branch
  | _ => .plain

mutual

inductive Sentence : List Mark → Prop
  | nil : Sentence []
  | plain {rest : List Mark} : Sentence rest → Sentence (.plain :: rest)
  | block {kind : BlockKind} {hasElse : Bool} {inner rest : List Mark} :
      Inside kind hasElse inner → Sentence rest → Sentence (.opens kind :: (inner ++ .closes kind :: rest))

/-- What stands in a block. Only a branch has further arms, and its else arm is the last. -/
inductive Inside : BlockKind → Bool → List Mark → Prop
  | body {kind : BlockKind} {ms : List Mark} : Sentence ms → Inside kind false ms
  | elsif {ms more : List Mark} :
      Inside .branch false ms → Sentence more → Inside .branch false (ms ++ .elsif :: more)
  | otherwise {ms more : List Mark} :
      Inside .branch false ms → Sentence more → Inside .branch true (ms ++ .otherwise :: more)

end

def Viable (ms : List Mark) : Prop :=
  ∃ more, Sentence (ms ++ more)

end Mark

namespace Region

def keyword : Region → String
  | .tag _ cs => String.ofList ((Text.trimLeft cs).takeWhile Token.isWordPart)
  | _ => ""

def keywordOffset : Region → Nat
  | .tag offset cs => offset + (Text.byteLength cs - Text.byteLength (Text.trimLeft cs))
  | .text offset _ => offset
  | .output offset _ => offset
  | .unclosedOutput offset => offset
  | .unclosedTag offset => offset

def mark (r : Region) : Mark :=
  .ofKeyword r.keyword

end Region

mutual

/-- The nodes that a list of instructions spells out, each block with what stands in it. -/
inductive Derives : List Instruction → List Node → Prop
  | nil : Derives [] []
  | place {n : Node} {rest : List Instruction} {ns : List Node} :
      Derives rest ns → Derives (.place n :: rest) (n :: ns)
  | capture {name : String} {o o' : Nat} {inner rest : List Instruction} {body ns : List Node} :
      Derives inner body → Derives rest ns →
        Derives (.begin (.capture name) o :: (inner ++ .finish .capture o' :: rest))
          (.capture name body o :: ns)
  | loop {name : String} {source : Expr} {o o' : Nat} {inner rest : List Instruction}
      {body ns : List Node} :
      Derives inner body → Derives rest ns →
        Derives (.begin (.loop name source) o :: (inner ++ .finish .loop o' :: rest))
          (.loop name source body o :: ns)
  | branch {first last : Expr} {hasElse : Bool} {o o' : Nat} {inner rest : List Instruction}
      {arms : List (Expr × List Node)} {body ns : List Node} :
      DerivesArms first hasElse inner arms last body → Derives rest ns →
        Derives (.begin (.branch [] first false) o :: (inner ++ .finish .branch o' :: rest))
          (.branch (arms ++ [(last, body)]) o :: ns)

inductive DerivesArms :
    Expr → Bool → List Instruction → List (Expr × List Node) → Expr → List Node → Prop
  | first {first : Expr} {is : List Instruction} {body : List Node} :
      Derives is body → DerivesArms first false is [] first body
  | elsif {first last next : Expr} {o : Nat} {is more : List Instruction}
      {arms : List (Expr × List Node)} {body ns : List Node} :
      DerivesArms first false is arms last body → Derives more ns →
        DerivesArms first false (is ++ .otherwiseIf next o :: more) (arms ++ [(last, body)]) next ns
  | otherwise {first last : Expr} {o : Nat} {is more : List Instruction}
      {arms : List (Expr × List Node)} {body ns : List Node} :
      DerivesArms first false is arms last body → Derives more ns →
        DerivesArms first true (is ++ .otherwise o :: more) (arms ++ [(last, body)])
          (.literal (.bool true) o) ns

end

end Stencil
