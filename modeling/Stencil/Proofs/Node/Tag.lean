import Stencil.Template
import Stencil.Proofs.Bind

namespace Stencil

def Expr.ReadFrom (ts : List Token) (e : Expr) : Prop :=
  ∃ us stop, us ⊆ ts ∧ ofTokens us stop = .ok e

namespace Expr.ReadFrom

variable {ts us : List Token} {e : Expr}

theorem of_ofTokens {stop : Nat} (h : ofTokens ts stop = .ok e) : ReadFrom ts e :=
  ⟨ts, stop, List.Subset.refl ts, h⟩

theorem mono (h : ReadFrom us e) (hs : us ⊆ ts) : ReadFrom ts e := by
  obtain ⟨ws, stop, hws, he⟩ := h
  exact ⟨ws, stop, List.Subset.trans hws hs, he⟩

end Expr.ReadFrom

namespace Instruction

inductive Says (offset : Nat) (ts : List Token) : Instruction → Prop
  | assign {name : String} {value : Expr} {target : AssignTarget} :
      value.ReadFrom ts → Says offset ts (.place (.assign name value target offset))
  | embed {name : String} {arguments : List (String × Expr)} :
      (∀ a ∈ arguments, a.2.ReadFrom ts) → Says offset ts (.place (.embed name arguments offset))
  | signal {s : Signal} : Says offset ts (.place (.signal s offset))
  | newline : Says offset ts (.place (.newline offset))
  | capture {name : String} : Says offset ts (.begin (.capture name) offset)
  | loop {name : String} {source : Expr} :
      source.ReadFrom ts → Says offset ts (.begin (.loop name source) offset)
  | branch {condition : Expr} :
      condition.ReadFrom ts → Says offset ts (.begin (.branch [] condition false) offset)
  | otherwiseIf {condition : Expr} :
      condition.ReadFrom ts → Says offset ts (.otherwiseIf condition offset)
  | otherwise : Says offset ts (.otherwise offset)
  | finish {kind : BlockKind} : Says offset ts (.finish kind offset)

variable {offset stop : Nat} {i j : Instruction} {ts : List Token}

theorem eq_of_bare (h : bare j ts = .ok i) : i = j := by
  obtain ⟨-, -, h⟩ := Except.of_bind_ok h
  exact (Except.ok.inj h).symm

theorem rest_subset_of_expectName {fault : ParseFault} {name : String} {rest : List Token}
    (h : expectName fault ts stop = .ok (name, rest)) : rest ⊆ ts := by
  simp only [expectName] at h
  split at h
  · cases h
  split at h
  · cases h
    exact List.subset_cons_self ..
  · cases h

theorem splitSelector_subset (ts : List Token) : (splitSelector ts).2 ⊆ ts := by
  simp only [splitSelector]
  split
  · split
    · split
      · exact List.Subset.refl ts
      · exact List.dropLast_subset ts
    · exact List.Subset.refl ts
  · exact List.Subset.refl ts

theorem of_assign (h : assign offset ts stop = .ok i) :
    ∃ name value target, value.ReadFrom ts ∧ i = .place (.assign name value target offset) := by
  obtain ⟨⟨name, rest⟩, hname, h⟩ := Except.of_bind_ok h
  dsimp only at h
  split at h
  · cases h
  next sign rest =>
    obtain ⟨-, h⟩ := Except.of_check_ok h
    obtain ⟨value, hv, h⟩ := Except.of_bind_ok h
    refine ⟨name, value, _, ?_, (Except.ok.inj h).symm⟩
    refine (Expr.ReadFrom.of_ofTokens hv).mono ?_
    refine List.Subset.trans (splitSelector_subset rest) ?_
    exact List.Subset.trans (List.subset_cons_self sign rest) (rest_subset_of_expectName hname)

theorem takeValue_append (isFirst : Bool) (depth : Nat) (ts : List Token) :
    (takeValue isFirst depth ts).1 ++ (takeValue isFirst depth ts).2 = ts := by
  induction ts generalizing isFirst depth with
  | nil => rfl
  | cons t ts ih =>
      rw [takeValue]
      split
      · rfl
      · exact congrArg (t :: ·) (ih false (Token.depthAfter depth t))

theorem takeValue_subset (isFirst : Bool) (depth : Nat) (ts : List Token) :
    (takeValue isFirst depth ts).1 ⊆ ts ∧ (takeValue isFirst depth ts).2 ⊆ ts := by
  have h := takeValue_append isFirst depth ts
  generalize takeValue isFirst depth ts = parts at h ⊢
  subst h
  exact ⟨List.subset_append_left .., List.subset_append_right ..⟩

theorem dropComma_subset (ts : List Token) : dropComma ts ⊆ ts := by
  unfold dropComma
  split
  · split
    · exact List.subset_cons_self ..
    · exact List.Subset.refl _
  · exact List.Subset.refl _

/-- The values of the arguments are read one after another. The induction is on the number of tokens. -/
theorem of_embedArguments {arguments : List (String × Expr)} (h : embedArguments ts stop = .ok arguments) :
    ∀ a ∈ arguments, a.2.ReadFrom ts := by
  induction hn : ts.length using Nat.strongRecOn generalizing ts arguments with
  | ind n ih =>
      subst hn
      cases ts with
      | nil =>
          rw [embedArguments] at h
          obtain rfl := Except.ok.inj h
          exact List.forall_mem_nil _
      | cons key rest =>
          rw [embedArguments.eq_def] at h
          dsimp only at h
          obtain ⟨-, h⟩ := Except.of_check_ok h
          cases rest with
          | nil => cases h
          | cons sign rest =>
            obtain ⟨-, h⟩ := Except.of_check_ok h
            obtain ⟨value, hv, h⟩ := Except.of_bind_ok h
            obtain ⟨more, hm, h⟩ := Except.of_bind_ok h
            obtain rfl := Except.ok.inj h
            obtain ⟨hvalue, hleft⟩ := takeValue_subset true 0 rest
            have hmore : dropComma (takeValue true 0 rest).2 ⊆ rest :=
              List.Subset.trans (dropComma_subset _) hleft
            have hrest : rest ⊆ key :: sign :: rest :=
              List.Subset.trans (List.subset_cons_self ..) (List.subset_cons_self ..)
            have hlt : (dropComma (takeValue true 0 rest).2).length < (key :: sign :: rest).length := by
              have := length_dropComma_le (takeValue true 0 rest).2
              have := length_takeValue_le true 0 rest
              simp only [List.length_cons]
              omega
            refine List.forall_mem_cons.2 ⟨(Expr.ReadFrom.of_ofTokens hv).mono (List.Subset.trans hvalue hrest), ?_⟩
            intro a ha
            exact (ih _ hlt hm rfl a ha).mono (List.Subset.trans hmore hrest)

theorem of_embedWith {name : String} (h : embedWith name offset ts stop = .ok i) :
    ∃ arguments, (∀ a ∈ arguments, a.2.ReadFrom ts) ∧ i = .place (.embed name arguments offset) := by
  simp only [embedWith] at h
  split at h
  · exact ⟨[], List.forall_mem_nil _, (Except.ok.inj h).symm⟩
  next word rest =>
    obtain ⟨-, h⟩ := Except.of_check_ok h
    obtain ⟨-, h⟩ := Except.of_check_ok h
    obtain ⟨arguments, ha, h⟩ := Except.of_bind_ok h
    refine ⟨arguments, ?_, (Except.ok.inj h).symm⟩
    exact fun a hm => (of_embedArguments ha a hm).mono (List.subset_cons_self ..)

theorem dotted_subset (name : String) (ts : List Token) : (dotted name ts).2 ⊆ ts := by
  fun_induction dotted name ts with
  | case1 name dot part rest _ ih =>
      exact List.Subset.trans ih (List.Subset.trans (List.subset_cons_self ..) (List.subset_cons_self ..))
  | case2 => exact List.Subset.refl _
  | case3 => exact List.Subset.refl _

theorem of_embed (h : embed offset ts stop = .ok i) :
    ∃ name arguments, (∀ a ∈ arguments, a.2.ReadFrom ts) ∧ i = .place (.embed name arguments offset) := by
  simp only [embed] at h
  split at h
  · cases h
  next t rest =>
    split at h
    · obtain ⟨arguments, ha, hi⟩ := of_embedWith h
      exact ⟨_, arguments, fun a hm => (ha a hm).mono (List.subset_cons_self ..), hi⟩
    split at h
    · obtain ⟨arguments, ha, hi⟩ := of_embedWith h
      refine ⟨_, arguments, fun a hm => (ha a hm).mono ?_, hi⟩
      exact List.Subset.trans (dotted_subset t.text rest) (List.subset_cons_self ..)
    · cases h

theorem of_capture (h : capture offset ts stop = .ok i) : ∃ name, i = .begin (.capture name) offset := by
  obtain ⟨⟨name, rest⟩, -, h⟩ := Except.of_bind_ok h
  obtain ⟨-, -, h⟩ := Except.of_bind_ok h
  exact ⟨name, (Except.ok.inj h).symm⟩

theorem of_loop (h : loop offset ts stop = .ok i) :
    ∃ name source, source.ReadFrom ts ∧ i = .begin (.loop name source) offset := by
  obtain ⟨⟨name, rest⟩, hname, h⟩ := Except.of_bind_ok h
  dsimp only at h
  split at h
  · cases h
  next word rest =>
    obtain ⟨-, h⟩ := Except.of_check_ok h
    obtain ⟨source, hs, h⟩ := Except.of_bind_ok h
    refine ⟨name, source, ?_, (Except.ok.inj h).symm⟩
    refine (Expr.ReadFrom.of_ofTokens hs).mono ?_
    exact List.Subset.trans (List.subset_cons_self word rest) (rest_subset_of_expectName hname)

theorem says_of_ofKeyword {keyword : Token} (h : ofKeyword keyword ts stop = .ok i) :
    i.Says keyword.offset ts := by
  unfold ofKeyword at h
  dsimp only at h
  split at h
  next =>
    obtain ⟨name, value, target, hv, rfl⟩ := of_assign h
    exact .assign hv
  next =>
    obtain ⟨name, rfl⟩ := of_capture h
    exact .capture
  next =>
    obtain rfl := eq_of_bare h
    exact .finish
  next =>
    obtain ⟨condition, hc, h⟩ := Except.of_bind_ok h
    obtain rfl := Except.ok.inj h
    exact .branch (.of_ofTokens hc)
  next =>
    obtain ⟨condition, hc, h⟩ := Except.of_bind_ok h
    obtain rfl := Except.ok.inj h
    exact .otherwiseIf (.of_ofTokens hc)
  next =>
    obtain rfl := eq_of_bare h
    exact .otherwise
  next =>
    obtain rfl := eq_of_bare h
    exact .finish
  next =>
    obtain ⟨name, source, hs, rfl⟩ := of_loop h
    exact .loop hs
  next =>
    obtain rfl := eq_of_bare h
    exact .finish
  case h_10 | h_11 | h_12 | h_13 =>
    obtain rfl := eq_of_bare h
    exact .signal
  next =>
    obtain rfl := eq_of_bare h
    exact .newline
  next =>
    obtain ⟨name, arguments, ha, rfl⟩ := of_embed h
    exact .embed ha
  next => cases h

/-- A tag is a comment, or what its keyword says. -/
theorem says_of_ofTag {cs : List Char} (h : ofTag offset cs = .ok i) :
    i = .place (.comment (offset + (Text.byteLength cs - Text.byteLength (Text.trimLeft cs)))) ∨
      ∃ keyword ts, Token.scan offset cs = .ok (keyword :: ts) ∧ i.Says keyword.offset ts := by
  rw [ofTag] at h
  dsimp only at h
  split at h
  next => exact .inl (Except.ok.inj h).symm
  obtain ⟨tokens, hscan, h⟩ := Except.of_bind_ok h
  cases tokens with
  | nil => cases h
  | cons keyword ts =>
      obtain ⟨-, h⟩ := Except.of_check_ok h
      exact .inr ⟨keyword, ts, hscan, says_of_ofKeyword h⟩

end Instruction

end Stencil
