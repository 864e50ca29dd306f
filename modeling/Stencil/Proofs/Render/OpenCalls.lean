import Stencil.Proofs.Render.Rank
import Stencil.Proofs.Render.Visited

namespace Stencil

inductive Follows (engine : Engine) : Point × RenderState → Point × RenderState → Prop
  | next {depth n rest st st'} (h : n.process engine (engine.includer depth) st = .ok () st')
      (hs : st'.scope.signals.isNone) :
      Follows engine (.nodes depth (n :: rest), st) (.nodes depth rest, st')
  | nextRound {depth name body length index item items st st'}
      (h : Node.processAll engine (engine.includer depth) body (st.openRound name item index length) =
        .ok () st')
      (hl : st'.scope.signals.stopLoop = false) (hn : st'.scope.signals.nextRound = false)
      (he : st'.scope.signals.eject = false) :
      Follows engine (.rounds depth name body length index (item :: items), st)
        (.rounds depth name body length (index + 1) items, st')
  | continued {depth name body length index item items st st'}
      (h : Node.processAll engine (engine.includer depth) body (st.openRound name item index length) =
        .ok () st')
      (hn : st'.scope.signals.nextRound) (hl : st'.scope.signals.stopLoop = false) :
      Follows engine (.rounds depth name body length index (item :: items), st)
        (.rounds depth name body length (index + 1) items, st'.clear)

/-- What is called for the first thing at a point: the body of a capture, of an arm or of a round, the rounds of
a loop, and an included template. -/
inductive Enters (engine : Engine) : Point × RenderState → Point × RenderState → Prop
  | capture {depth name body k rest st} :
      Enters engine (.nodes depth (.capture name body k :: rest), st)
        (.nodes depth body, st.enter .control [])
  | arm {depth skipped condition body more k rest st v}
      (hs : ∀ arm ∈ skipped, ∃ u, Expr.eval ⟨st.scope, engine.filters⟩ arm.1 = .ok u ∧ !u.isTruthy)
      (hc : condition.eval ⟨st.scope, engine.filters⟩ = .ok v) (hv : v.isTruthy) :
      Enters engine (.nodes depth (.branch (skipped ++ (condition, body) :: more) k :: rest), st)
        (.nodes depth body, st)
  | loop {depth name source body k rest st v items}
      (he : source.eval ⟨st.scope, engine.filters⟩ = .ok v) (hr : v.rounds? = some items) :
      Enters engine (.nodes depth (.loop name source body k :: rest), st)
        (.rounds depth name body items.length 0 items, st.enter .control [])
  | round {depth name body length index item items st} :
      Enters engine (.rounds depth name body length index (item :: items), st)
        (.nodes depth body, st.openRound name item index length)
  | embed {depth name arguments k rest st d st'} {t : Template}
      (hd : Expr.evalArguments ⟨st.scope, engine.filters⟩ arguments [("__", .bool true)] = .ok d)
      (hr : engine.resolve name k st = .ok t st') :
      Enters engine (.nodes (depth + 1) (.embed name arguments k :: rest), st)
        (.nodes depth t.nodes, st'.enter .file [("include", .map d)])

variable {engine : Engine} {p q q' : Point × RenderState}

theorem proceeds_iff : Proceeds engine p q ↔ Follows engine p q ∨ Enters engine p q := by
  constructor
  · intro h
    cases h with
    | nextRound h hl hn he => exact .inl (.nextRound h hl hn he)
    | call h =>
        cases h with
        | next h hs => exact .inl (.next h hs)
        | capture => exact .inr .capture
        | arm hs hc hv => exact .inr (.arm hs hc hv)
        | loop he hr => exact .inr (.loop he hr)
        | round => exact .inr .round
        | nextRound h hs =>
            have hnone := Signals.isNone_iff.1 hs
            refine .inl (.nextRound h ?_ ?_ ?_) <;> rw [hnone] <;> rfl
        | continued h hs hn => exact .inl (.continued h hs hn)
        | embed hd hr => exact .inr (.embed hd hr)
  · rintro (h | h)
    · cases h with
      | next h hs => exact .call (.next h hs)
      | nextRound h hl hn he => exact .nextRound h hl hn he
      | continued h hn hl => exact .call (.continued h hn hl)
    · cases h with
      | capture => exact .call .capture
      | arm hs hc hv => exact .call (.arm hs hc hv)
      | loop he hr => exact .call (.loop he hr)
      | round => exact .call .round
      | embed hd hr => exact .call (.embed hd hr)

/-- What is carried along in a call and into the calls that are entered holds wherever a render comes to. -/
theorem proceeds_induction {motive : Point × RenderState → Prop}
    (h : Relation.ReflTransGen (Proceeds engine) p q) (here : motive p)
    (follow : ∀ q q', motive q → Follows engine q q' → motive q')
    (enter : ∀ q q', motive q → Enters engine q q' → motive q') : motive q := by
  induction h with
  | refl => exact here
  | tail _ hstep ih =>
      rcases proceeds_iff.1 hstep with hf | he
      · exact follow _ _ ih hf
      · exact enter _ _ ih he

/-- At most one thing is done next. -/
theorem Follows.unique (h : Follows engine p q) (h' : Follows engine p q') : q' = q := by
  cases h with
  | next h hs =>
      cases h' with
      | next h' hs' =>
          rw [h] at h'
          cases h'
          rfl
  | nextRound h hl hn he =>
      cases h' with
      | nextRound h' =>
          rw [h] at h'
          cases h'
          rfl
      | continued h' hn' =>
          rw [h] at h'
          cases h'
          rw [hn] at hn'
          cases hn'
  | continued h hn hl =>
      cases h' with
      | nextRound h' _ hn' =>
          rw [h] at h'
          cases h'
          rw [hn'] at hn
          cases hn
      | continued h' =>
          rw [h] at h'
          cases h'
          rfl

/-- The render comes from the one point to the other with so many calls open that were entered since. -/
inductive Nested (engine : Engine) (p : Point × RenderState) : Nat → Point × RenderState → Prop
  | here : Nested engine p 0 p
  | follow {k q q'} (h : Nested engine p k q) (hf : Follows engine q q') : Nested engine p k q'
  | enter {k q q'} (h : Nested engine p k q) (he : Enters engine q q') : Nested engine p (k + 1) q'

theorem exists_nested_iff : (∃ k, Nested engine p k q) ↔ Relation.ReflTransGen (Proceeds engine) p q := by
  constructor
  · rintro ⟨k, h⟩
    induction h with
    | here => exact .refl
    | follow _ hf ih => exact ih.tail (proceeds_iff.2 (.inl hf))
    | enter _ he ih => exact ih.tail (proceeds_iff.2 (.inr he))
  · intro h
    refine proceeds_induction (motive := fun q => ∃ k, Nested engine p k q) h ⟨0, .here⟩ ?_ ?_
    · rintro q q' ⟨k, hk⟩ hf
      exact ⟨k, hk.follow hf⟩
    · rintro q q' ⟨k, hk⟩ he
      exact ⟨k + 1, hk.enter he⟩

/-- So many things are done between the two points, one after another in the same call. -/
inductive FollowsAfter (engine : Engine) (p : Point × RenderState) : Nat → Point × RenderState → Prop
  | here : FollowsAfter engine p 0 p
  | next {i q q'} (h : FollowsAfter engine p i q) (hf : Follows engine q q') : FollowsAfter engine p (i + 1) q'

section

variable {depth : Nat} {name : String} {body : List Node} {length index : Nat} {items : List Value}
  {st : RenderState}

theorem Follows.of_rounds (h : Follows engine (.rounds depth name body length index items, st) q) :
    ∃ item rest st', items = item :: rest ∧ q = (.rounds depth name body length (index + 1) rest, st') := by
  cases h with
  | nextRound | continued => exact ⟨_, _, _, rfl, rfl⟩

theorem Enters.of_rounds (h : Enters engine (.rounds depth name body length index items, st) q) :
    ∃ item rest, items = item :: rest ∧ q = (.nodes depth body, st.openRound name item index length) := by
  cases h with
  | round => exact ⟨_, _, rfl, rfl⟩

theorem Enters.unique_of_rounds (h : Enters engine (.rounds depth name body length index items, st) q)
    (h' : Enters engine (.rounds depth name body length index items, st) q') : q' = q := by
  obtain ⟨item, rest, rfl, rfl⟩ := h.of_rounds
  obtain ⟨item', rest', hitems, rfl⟩ := h'.of_rounds
  rw [(List.cons.inj hitems).1]

/-- A loop evaluates its source before it is entered, and begins with all that it will go through. -/
theorem Enters.of_loop {source : Expr} {k : Nat} {rest : List Node}
    (h : Enters engine (.nodes depth (.loop name source body k :: rest), st) q) :
    ∃ v items, source.eval ⟨st.scope, engine.filters⟩ = .ok v ∧ v.rounds? = some items ∧
      q = (.rounds depth name body items.length 0 items, st.enter .control []) := by
  cases h with
  | loop he hr => exact ⟨_, _, he, hr, rfl⟩

theorem FollowsAfter.unique {i : Nat} (h : FollowsAfter engine p i q) (h' : FollowsAfter engine p i q') :
    q' = q := by
  induction h generalizing q' with
  | here =>
      cases h' with
      | here => rfl
  | next _ hf ih =>
      cases h' with
      | next h' hf' =>
          obtain rfl := ih h'
          exact hf.unique hf'

theorem FollowsAfter.of_rounds {i : Nat}
    (h : FollowsAfter engine (.rounds depth name body length index items, st) i q) :
    ∃ st', q = (.rounds depth name body length (index + i) (items.drop i), st') := by
  induction h with
  | here => exact ⟨st, rfl⟩
  | @next i _ _ _ hf ih =>
      obtain ⟨st', rfl⟩ := ih
      obtain ⟨item, rest, st'', hitems, rfl⟩ := hf.of_rounds
      refine ⟨st'', ?_⟩
      rw [Nat.add_assoc, List.drop_add_one_eq_tail_drop, hitems, List.tail_cons]

/-- The body is entered with one item after another, at most once with each. -/
theorem FollowsAfter.body_of_rounds {i : Nat}
    (h : FollowsAfter engine (.rounds depth name body length index items, st) i q) (he : Enters engine q q') :
    ∃ (hi : i < items.length) (before : RenderState),
      q' = (.nodes depth body, before.openRound name items[i] (index + i) length) ∧
        ∀ p p', FollowsAfter engine (.rounds depth name body length index items, st) i p →
          Enters engine p p' → p' = q' := by
  obtain ⟨st', rfl⟩ := h.of_rounds
  obtain ⟨item, rest, hitems, hq'⟩ := he.of_rounds
  have hi : i < items.length := by
    have hlen := congrArg List.length hitems
    rw [List.length_drop, List.length_cons] at hlen
    omega
  refine ⟨hi, st', ?_, ?_⟩
  · rw [List.drop_eq_getElem_cons hi, List.cons.injEq] at hitems
    rw [hq', hitems.1]
  · intro p p' hp hp'
    obtain rfl := h.unique hp
    exact he.unique_of_rounds hp'

end

namespace Point

def nesting (rank : String → Nat) : Point → Nat
  | nodes _ ns => Node.nestingAll rank ns
  | rounds _ _ body _ _ _ => Node.nestingAll rank body + 1

def included : Point → List String
  | nodes _ ns => Node.includedInAll ns
  | rounds _ _ body _ _ _ => Node.includedInAll body

end Point

section

variable {provide : String → Option Template} {known : String → Prop} {rank : String → Nat}

theorem Follows.nesting_le (h : Follows engine p q) (rank : String → Nat) :
    q.1.nesting rank ≤ p.1.nesting rank ∧ q.1.included ⊆ p.1.included := by
  cases h with
  | next => exact ⟨Nat.le_max_right .., List.subset_append_right ..⟩
  | nextRound | continued => exact ⟨Nat.le_refl _, List.Subset.refl _⟩

theorem Enters.nesting_lt (h : Enters engine p q) (hr : Template.Ranked provide known rank)
    (hp : engine.provide p.2.templates = provide) (hknown : ∀ name ∈ p.1.included, known name) :
    q.1.nesting rank < p.1.nesting rank ∧ ∀ name ∈ q.1.included, known name := by
  cases h with
  | capture | loop =>
      exact ⟨Nat.lt_of_lt_of_le (Nat.lt_succ_self _) (Nat.le_max_left ..),
        fun name h => hknown name (List.mem_append_left _ h)⟩
  | @arm _ skipped condition body more =>
      obtain ⟨hle, hsub⟩ := Node.nestingAll_le_nestingArms rank
        (List.mem_append_right skipped (List.mem_cons_self (a := (condition, body)) (l := more)))
      exact ⟨Nat.lt_of_lt_of_le (Nat.lt_succ_of_le hle) (Nat.le_max_left ..),
        fun name h => hknown name (List.mem_append_left _ (hsub h))⟩
  | round => exact ⟨Nat.lt_succ_self _, hknown⟩
  | @embed _ name _ _ _ _ _ _ u hd hresolve =>
      obtain ⟨templates, rfl, hu, -⟩ := engine.of_resolve_ok hresolve
      rw [hp] at hu
      -- the only call that leaves the nodes; the rank of the name stands for what it finds
      have hname : known name := hknown name (List.mem_append_left _ List.mem_cons_self)
      exact ⟨Nat.lt_of_lt_of_le (Nat.lt_succ_of_le (hr.nesting_le hname hu)) (Nat.le_max_left ..),
        hr.known_next hname hu⟩

/-- Open calls and the nesting that is left come to no more than there was. -/
theorem Renderer.add_nesting_le {r : Renderer} {t : Template} {data : Dict Value} {k : Nat}
    (hr : Template.Ranked r.provides known rank) (ht : ∀ name ∈ Node.includedInAll t.nodes, known name)
    (h : Nested r.engine (.nodes r.includeLimit t.nodes, r.start data) k q) :
    k + q.1.nesting rank ≤ Node.nestingAll rank t.nodes ∧ ∀ name ∈ q.1.included, known name := by
  induction h with
  | here => exact ⟨Nat.le_of_eq (Nat.zero_add _), ht⟩
  | follow _ hf ih =>
      obtain ⟨hle, hsub⟩ := hf.nesting_le rank
      exact ⟨Nat.le_trans (Nat.add_le_add_left hle _) ih.1, fun name hname => ih.2 name (hsub hname)⟩
  | enter h he ih =>
      have hv : r.Visits t data _ := exists_nested_iff.1 ⟨_, h⟩
      obtain ⟨hlt, hknown⟩ := he.nesting_lt hr hv.calls.2.1.provide ih.2
      exact ⟨by omega, hknown⟩

end

end Stencil
