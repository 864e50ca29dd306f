import Mathlib
import Stencil.Proofs.Expr.Reworded
import Stencil.Proofs.Node.Selector

namespace Stencil

namespace Rewording

variable {r : Rewording} {t u : Token}

def argument (r : Rewording) (a b : String × Expr) : Prop :=
  b.1 = a.1 ∧ r.expr a.2 b.2

inductive Repeats (r : Rewording) (o o' : Nat) : Instruction → Instruction → Prop
  | assign {name : String} {value value' : Expr} {target : AssignTarget} :
      r.expr value value' →
        Repeats r o o' (.place (.assign name value target o)) (.place (.assign name value' target o'))
  | embed {name name' : String} {arguments arguments' : List (String × Expr)} :
      r.name name name' → List.Forall₂ r.argument arguments arguments' →
        Repeats r o o' (.place (.embed name arguments o)) (.place (.embed name' arguments' o'))
  | signal {s : Signal} : Repeats r o o' (.place (.signal s o)) (.place (.signal s o'))
  | newline : Repeats r o o' (.place (.newline o)) (.place (.newline o'))
  | capture {name : String} : Repeats r o o' (.begin (.capture name) o) (.begin (.capture name) o')
  | loop {name : String} {source source' : Expr} :
      r.expr source source' → Repeats r o o' (.begin (.loop name source) o) (.begin (.loop name source') o')
  | branch {condition condition' : Expr} : r.expr condition condition' →
      Repeats r o o' (.begin (.branch [] condition false) o) (.begin (.branch [] condition' false) o')
  | otherwiseIf {condition condition' : Expr} :
      r.expr condition condition' → Repeats r o o' (.otherwiseIf condition o) (.otherwiseIf condition' o')
  | otherwise : Repeats r o o' (.otherwise o) (.otherwise o')
  | finish {kind : BlockKind} : Repeats r o o' (.finish kind o) (.finish kind o')

end Rewording

namespace Instruction

variable {r : Rewording} {ts us : List Token} {i : Instruction} {offset stop : Nat}

theorem expectNone_reworded (h : expectNone ts = .ok ()) (hts : List.Forall₂ r.token ts us) :
    expectNone us = .ok () := by
  cases hts with
  | nil => rfl
  | cons => cases h

theorem bare_reworded {j : Instruction} (h : bare j ts = .ok i) (hts : List.Forall₂ r.token ts us)
    (j' : Instruction) : bare j' us = .ok j' := by
  obtain ⟨_, hnone, -⟩ := Except.of_bind_ok h
  rw [bare, expectNone_reworded hnone hts]
  rfl

theorem expectName_reworded {fault : ParseFault} {name : String} {rest : List Token}
    (h : expectName fault ts stop = .ok (name, rest)) (hts : List.Forall₂ r.token ts us) (stop' : Nat) :
    ∃ rest', expectName fault us stop' = .ok (name, rest') ∧ List.Forall₂ r.token rest rest' := by
  cases hts with
  | nil => cases h
  | @cons t u ts us ht hts =>
      rw [expectName] at h ⊢
      split at h
      next hk =>
        cases h
        rw [if_pos ((r.kind_eq ht).trans hk), r.text_eq ht (by simp [hk])]
        exact ⟨us, rfl, hts⟩
      next => cases h

theorem selector?_reworded {t u : Token} (h : r.token t u) : selector? u = selector? t := by
  rw [selector?, selector?, r.isWord_eq h, r.isWord_eq h]

theorem splitSelector_reworded (hts : List.Forall₂ r.token ts us) : (splitSelector us).1 = (splitSelector ts).1 ∧
    List.Forall₂ r.token (splitSelector ts).2 (splitSelector us).2 := by
  by_cases hshort : ts.length ≤ 1
  · rw [splitSelector_short hshort, splitSelector_short (hts.length_eq ▸ hshort)]
    exact ⟨rfl, hts⟩
  · obtain ⟨front, before, last, rfl⟩ := exists_append_of_length hshort
    obtain ⟨front', back, rfl, hfront, hback⟩ := hts.exists_append
    cases hback with
    | cons hbefore hlast =>
      cases hlast with
      | cons hlast hnil =>
        cases hnil
        rw [splitSelector_append, splitSelector_append, selector?_reworded hlast, r.kind_eq hbefore]
        split
        next =>
          split
          next => exact ⟨rfl, hts⟩
          next => exact ⟨rfl, List.rel_append hfront (.cons hbefore .nil)⟩
        next => exact ⟨rfl, hts⟩

theorem assign_reworded (h : assign offset ts stop = .ok i) (hts : List.Forall₂ r.token ts us)
    (offset' stop' : Nat) : ∃ j, assign offset' us stop' = .ok j ∧ r.Repeats offset offset' i j := by
  obtain ⟨⟨name, rest⟩, hname, h⟩ := Except.of_bind_ok h
  obtain ⟨rest', hname', hrest⟩ := expectName_reworded hname hts stop'
  rw [assign, hname']
  cases hrest with
  | nil => cases h
  | @cons sign sign' rest rest' hsign hrest =>
      obtain ⟨hs, h⟩ := Except.of_check_ok h
      obtain ⟨value, hv, h⟩ := Except.of_bind_ok h
      obtain rfl := Except.ok.inj h
      obtain ⟨htarget, hvalue⟩ := splitSelector_reworded hrest
      obtain ⟨value', hv', hexpr⟩ := r.read hv hvalue stop'
      rw [← r.isOperator_eq hsign] at hs
      refine ⟨.place (.assign name value' (splitSelector rest').1 offset'), ?_, ?_⟩
      · dsimp only [bind, Except.bind]
        rw [if_neg hs, hv']
        rfl
      · rw [htarget]
        exact .assign hexpr

theorem capture_reworded (h : capture offset ts stop = .ok i) (hts : List.Forall₂ r.token ts us)
    (offset' stop' : Nat) : ∃ j, capture offset' us stop' = .ok j ∧ r.Repeats offset offset' i j := by
  obtain ⟨⟨name, rest⟩, hname, h⟩ := Except.of_bind_ok h
  obtain ⟨_, hnone, h⟩ := Except.of_bind_ok h
  obtain rfl := Except.ok.inj h
  obtain ⟨rest', hname', hrest⟩ := expectName_reworded hname hts stop'
  refine ⟨.begin (.capture name) offset', ?_, .capture⟩
  rw [capture, hname']
  dsimp only [bind, Except.bind]
  rw [expectNone_reworded hnone hrest]
  rfl

theorem loop_reworded (h : loop offset ts stop = .ok i) (hts : List.Forall₂ r.token ts us)
    (offset' stop' : Nat) : ∃ j, loop offset' us stop' = .ok j ∧ r.Repeats offset offset' i j := by
  obtain ⟨⟨name, rest⟩, hname, h⟩ := Except.of_bind_ok h
  obtain ⟨rest', hname', hrest⟩ := expectName_reworded hname hts stop'
  rw [loop, hname']
  cases hrest with
  | nil => cases h
  | @cons word word' rest rest' hword hrest =>
      obtain ⟨hw, h⟩ := Except.of_check_ok h
      obtain ⟨source, hs, h⟩ := Except.of_bind_ok h
      obtain rfl := Except.ok.inj h
      obtain ⟨source', hs', hexpr⟩ := r.read hs hrest stop'
      rw [← r.isWord_eq hword] at hw
      refine ⟨.begin (.loop name source') offset', ?_, .loop hexpr⟩
      dsimp only [bind, Except.bind]
      rw [if_neg hw, hs']
      rfl

theorem startsWithSign_reworded (hts : List.Forall₂ r.token ts us) : startsWithSign us = startsWithSign ts := by
  cases hts with
  | nil => rfl
  | cons ht _ => exact r.isOperator_eq ht "="

theorem takeValue_reworded (isFirst : Bool) (depth : Nat) (hts : List.Forall₂ r.token ts us) :
    List.Forall₂ r.token (takeValue isFirst depth ts).1 (takeValue isFirst depth us).1 ∧
      List.Forall₂ r.token (takeValue isFirst depth ts).2 (takeValue isFirst depth us).2 := by
  induction hts generalizing isFirst depth with
  | nil => exact ⟨.nil, .nil⟩
  | @cons t u ts us ht hts ih =>
      have hdepth : Token.depthAfter depth u = Token.depthAfter depth t := by
        rw [Token.depthAfter, Token.depthAfter, r.kind_eq ht]
      rw [takeValue, takeValue, r.kind_eq ht, startsWithSign_reworded hts, hdepth]
      split
      next => exact ⟨.nil, .cons ht hts⟩
      next =>
        obtain ⟨hvalue, hrest⟩ := ih false (Token.depthAfter depth t)
        exact ⟨.cons ht hvalue, hrest⟩

theorem dropComma_reworded (hts : List.Forall₂ r.token ts us) :
    List.Forall₂ r.token (dropComma ts) (dropComma us) := by
  cases hts with
  | nil => exact .nil
  | cons ht hts =>
      rw [dropComma, dropComma, r.kind_eq ht]
      split
      next => exact hts
      next => exact .cons ht hts

/-- The arguments are read one after another. The induction is on the number of tokens. -/
theorem embedArguments_reworded {arguments : List (String × Expr)} (h : embedArguments ts stop = .ok arguments)
    (hts : List.Forall₂ r.token ts us) (stop' : Nat) :
    ∃ more, embedArguments us stop' = .ok more ∧ List.Forall₂ r.argument arguments more := by
  induction hn : ts.length using Nat.strongRecOn generalizing ts us arguments with
  | ind n ih =>
      subst hn
      cases hts with
      | nil =>
          rw [embedArguments] at h
          obtain rfl := Except.ok.inj h
          exact ⟨[], by rw [embedArguments], .nil⟩
      | @cons key key' rest rest' hkey hrest =>
          rw [embedArguments.eq_def] at h ⊢
          dsimp only at h ⊢
          obtain ⟨hname, h⟩ := Except.of_check_ok h
          cases hrest with
          | nil => cases h
          | @cons sign sign' rest rest' hsign hrest =>
              obtain ⟨hs, h⟩ := Except.of_check_ok h
              obtain ⟨value, hv, h⟩ := Except.of_bind_ok h
              obtain ⟨more, hm, h⟩ := Except.of_bind_ok h
              obtain rfl := Except.ok.inj h
              obtain ⟨hvalue, hleft⟩ := takeValue_reworded true 0 hrest
              have hlt : (dropComma (takeValue true 0 rest).2).length < (key :: sign :: rest).length := by
                have := length_dropComma_le (takeValue true 0 rest).2
                have := length_takeValue_le true 0 rest
                simp only [List.length_cons]
                omega
              obtain ⟨value', hv', hexpr⟩ :=
                r.read hv hvalue (((takeValue true 0 rest').2.head?.map Token.offset).getD stop')
              obtain ⟨more', hm', hmore⟩ := ih _ hlt hm (dropComma_reworded hleft) rfl
              have htext : key'.text = key.text := r.text_eq hkey (by simp [Decidable.of_not_not hname])
              rw [← r.kind_eq hkey] at hname
              rw [← r.isOperator_eq hsign] at hs
              refine ⟨(key'.text, value') :: more', ?_, .cons ⟨htext, hexpr⟩ hmore⟩
              dsimp only [bind, Except.bind]
              rw [if_neg hname, if_neg hs, hv', hm']
              rfl

theorem embedWith_reworded {name name' : String} (h : embedWith name offset ts stop = .ok i)
    (hname : r.name name name') (hts : List.Forall₂ r.token ts us) (offset' stop' : Nat) :
    ∃ j, embedWith name' offset' us stop' = .ok j ∧ r.Repeats offset offset' i j := by
  cases hts with
  | nil =>
      obtain rfl := Except.ok.inj h
      exact ⟨_, rfl, .embed hname .nil⟩
  | @cons word word' rest rest' hword hrest =>
      obtain ⟨hw, h⟩ := Except.of_check_ok h
      obtain ⟨hempty, h⟩ := Except.of_check_ok h
      obtain ⟨arguments, ha, h⟩ := Except.of_bind_ok h
      obtain rfl := Except.ok.inj h
      obtain ⟨more, hmore, hargument⟩ := embedArguments_reworded ha hrest stop'
      rw [← r.isWord_eq hword] at hw
      have hempty' : ¬rest'.isEmpty := by
        cases hrest <;> simp_all
      refine ⟨.place (.embed name' more offset'), ?_, .embed hname hargument⟩
      rw [embedWith]
      dsimp only [bind, Except.bind]
      rw [if_neg hw, if_neg hempty', hmore]
      rfl

theorem dotted_reworded (name : String) (hts : List.Forall₂ r.token ts us) :
    (dotted name us).1 = (dotted name ts).1 ∧ List.Forall₂ r.token (dotted name ts).2 (dotted name us).2 := by
  fun_induction dotted name ts generalizing us with
  | case1 name dot part rest hdot ih =>
      obtain _ | ⟨hdot', _ | ⟨hpart, hrest⟩⟩ := hts
      rw [dotted, r.kind_eq hdot', r.kind_eq hpart, if_pos hdot, r.text_eq hpart (by simp [hdot])]
      exact ih hrest
  | case2 name dot part rest hdot =>
      obtain _ | ⟨hdot', _ | ⟨hpart, hrest⟩⟩ := hts
      rw [dotted, r.kind_eq hdot', r.kind_eq hpart, if_neg hdot]
      exact ⟨rfl, .cons hdot' (.cons hpart hrest)⟩
  | case3 name rest hshort =>
      cases hts with
      | nil => exact ⟨rfl, .nil⟩
      | cons hdot hrest =>
          cases hrest with
          | nil => exact ⟨rfl, .cons hdot .nil⟩
          | cons => exact (hshort _ _ _ rfl).elim

theorem embed_reworded (h : embed offset ts stop = .ok i) (hts : List.Forall₂ r.token ts us)
    (offset' stop' : Nat) : ∃ j, embed offset' us stop' = .ok j ∧ r.Repeats offset offset' i j := by
  cases hts with
  | nil => cases h
  | @cons t u rest rest' ht hrest =>
      rw [embed] at h ⊢
      dsimp only at h ⊢
      rw [r.kind_eq ht]
      split at h
      next hk =>
        rw [if_pos hk]
        exact embedWith_reworded h (r.unquoted ht) hrest _ _
      next hk =>
        split at h
        next hname =>
          obtain ⟨hdotted, hleft⟩ := dotted_reworded t.text hrest
          rw [if_neg hk, if_pos hname, r.text_eq ht hk]
          exact embedWith_reworded h (hdotted ▸ r.value_refl _) hleft _ _
        next => cases h

theorem ofKeyword_reworded {keyword keyword' : Token} (h : ofKeyword keyword ts stop = .ok i)
    (hkeyword : keyword'.text = keyword.text) (hts : List.Forall₂ r.token ts us) (stop' : Nat) :
    ∃ j, ofKeyword keyword' us stop' = .ok j ∧ r.Repeats keyword.offset keyword'.offset i j := by
  unfold ofKeyword at h ⊢
  dsimp only at h ⊢
  rw [hkeyword]
  split at h
  case h_1 => exact assign_reworded h hts _ _
  case h_2 => exact capture_reworded h hts _ _
  case h_4 =>
    obtain ⟨condition, hc, h⟩ := Except.of_bind_ok h
    obtain rfl := Except.ok.inj h
    obtain ⟨condition', hc', hexpr⟩ := r.read hc hts stop'
    rw [hc']
    exact ⟨_, rfl, .branch hexpr⟩
  case h_5 =>
    obtain ⟨condition, hc, h⟩ := Except.of_bind_ok h
    obtain rfl := Except.ok.inj h
    obtain ⟨condition', hc', hexpr⟩ := r.read hc hts stop'
    rw [hc']
    exact ⟨_, rfl, .otherwiseIf hexpr⟩
  case h_8 => exact loop_reworded h hts _ _
  case h_15 => exact embed_reworded h hts _ _
  case h_16 => cases h
  all_goals
    obtain rfl := eq_of_bare h
    refine ⟨_, bare_reworded h hts _, ?_⟩
    constructor

/-- Tags that begin with the same word, with tokens that correspond. -/
theorem ofTag_reworded {cs cs' : List Char} {offset' : Nat} (h : ofTag offset cs = .ok i)
    (hword : (Text.trimLeft cs').takeWhile Token.isWordPart = (Text.trimLeft cs).takeWhile Token.isWordPart)
    (hscan : ∀ ts, Token.scan offset cs = .ok ts → ∃ us, Token.scan offset' cs' = .ok us ∧ List.Forall₂ r.token ts us) :
    ∃ j, ofTag offset' cs' = .ok j ∧
      (i = .place (.comment (offset + (Text.byteLength cs - Text.byteLength (Text.trimLeft cs)))) ∧
          j = .place (.comment (offset' + (Text.byteLength cs' - Text.byteLength (Text.trimLeft cs')))) ∨
        ∃ keyword keyword', r.token keyword keyword' ∧ r.Repeats keyword.offset keyword'.offset i j) := by
  rw [ofTag] at h ⊢
  dsimp only at h ⊢
  rw [hword]
  split at h
  next hc =>
    obtain rfl := Except.ok.inj h
    rw [if_pos hc]
    exact ⟨_, rfl, .inl ⟨rfl, rfl⟩⟩
  next hc =>
    obtain ⟨ts, hts, h⟩ := Except.of_bind_ok h
    obtain ⟨us, hus, hrelated⟩ := hscan ts hts
    rw [if_neg hc, hus]
    cases hrelated with
    | nil => cases h
    | @cons keyword keyword' rest rest' hkeyword hrest =>
        obtain ⟨hname, h⟩ := Except.of_check_ok h
        have hk : keyword.kind = .identifier := Decidable.of_not_not hname
        obtain ⟨j, hj, hrepeats⟩ := ofKeyword_reworded h (r.text_eq hkeyword (by simp [hk])) hrest
          (offset' + Text.byteLength cs')
        rw [← r.kind_eq hkeyword] at hname
        refine ⟨j, ?_, .inr ⟨keyword, keyword', hkeyword, hrepeats⟩⟩
        dsimp only [bind, Except.bind]
        rw [if_neg hname]
        exact hj

end Instruction

end Stencil
