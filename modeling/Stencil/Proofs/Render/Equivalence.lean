import Stencil.Proofs.Render.Agreement
import Stencil.Proofs.Render.Rebound

namespace Stencil

namespace Reference

def Refines (x y : Env → Option Result) : Prop :=
  ∀ env r, x env = some r → y env = some r

def IncluderRefines (f g : Includer) : Prop :=
  ∀ name d, Refines (f name d) (g name d)

variable {m : Setting} {f g : Includer}

theorem runRounds_refines {x y : Env → Option Result} (h : Refines x y) (name : String) (length index : Nat)
    (items : List Value) : Refines (runRounds x name length index items) (runRounds y name length index items) := by
  induction items generalizing index with
  | nil => exact fun _ _ hr => hr
  | cons item rest ih =>
      intro env r hr
      simp only [runRounds, Option.bind_eq_bind, Option.bind_eq_some_iff] at hr ⊢
      obtain ⟨b, hb, hr⟩ := hr
      refine ⟨b, h _ _ hb, ?_⟩
      cases ho : b.outcome with
      | stopLoop | eject | discard =>
          rw [ho] at hr
          exact hr
      | normal | nextRound =>
          simp only [ho, Option.bind_eq_some_iff] at hr ⊢
          obtain ⟨more, hm, hr⟩ := hr
          exact ⟨more, ih (index + 1) _ _ hm, hr⟩

mutual

theorem run_refines (h : IncluderRefines f g) : (n : Node) → Refines (run m f n) (run m g n)
  | .text _ _, env, r, hr => by rwa [run] at hr ⊢
  | .output _, env, r, hr => by rwa [run] at hr ⊢
  | .assign _ _ _ _, env, r, hr => by rwa [run] at hr ⊢
  | .capture name body k, env, r, hr => by
      simp only [run, Option.bind_eq_bind, Option.bind_eq_some_iff] at hr ⊢
      obtain ⟨b, hb, hr⟩ := hr
      exact ⟨b, runAll_refines h body _ _ hb, hr⟩
  | .loop name source body k, env, r, hr => by
      have hbody := runAll_refines h body
      simp only [run, Option.bind_eq_bind, Option.bind_eq_some_iff] at hr ⊢
      obtain ⟨v, hv, hr⟩ := hr
      refine ⟨v, hv, ?_⟩
      cases hi : v.rounds? with
      | none =>
          rw [hi] at hr
          exact hr
      | some items =>
          rw [hi] at hr
          exact runRounds_refines hbody name items.length 0 items env r hr
  | .branch arms k, env, r, hr => by
      rw [run] at hr ⊢
      exact runArms_refines h arms env r hr
  | .embed name arguments k, env, r, hr => by
      simp only [run, Option.bind_eq_bind, Option.bind_eq_some_iff] at hr ⊢
      obtain ⟨d, hd, hr⟩ := hr
      exact ⟨d, hd, h name d env r hr⟩
  | .signal _ _, env, r, hr => by rwa [run] at hr ⊢
  | .comment _, env, r, hr => by rwa [run] at hr ⊢
  | .newline _, env, r, hr => by rwa [run] at hr ⊢

theorem runAll_refines (h : IncluderRefines f g) :
    (nodes : List Node) → Refines (runAll m f nodes) (runAll m g nodes)
  | [], env, r, hr => by rwa [runAll] at hr ⊢
  | n :: rest, env, r, hr => by
      have hrest := runAll_refines h rest
      simp only [runAll, Option.bind_eq_bind, Option.bind_eq_some_iff] at hr ⊢
      obtain ⟨b, hb, hr⟩ := hr
      refine ⟨b, run_refines h n _ _ hb, ?_⟩
      split at hr
      next ho =>
        rw [if_pos ho]
        obtain ⟨more, hm, hr⟩ := Option.bind_eq_some_iff.1 hr
        exact Option.bind_eq_some_iff.2 ⟨more, hrest _ _ hm, hr⟩
      next ho =>
        rw [if_neg ho]
        exact hr

theorem runArms_refines (h : IncluderRefines f g) :
    (arms : List (Expr × List Node)) → Refines (runArms m f arms) (runArms m g arms)
  | [], env, r, hr => by rwa [runArms] at hr ⊢
  | (condition, body) :: rest, env, r, hr => by
      have hbody := runAll_refines h body
      have hrest := runArms_refines h rest
      simp only [runArms, Option.bind_eq_bind, Option.bind_eq_some_iff] at hr ⊢
      obtain ⟨v, hv, hr⟩ := hr
      refine ⟨v, hv, ?_⟩
      split at hr
      next ht =>
        rw [if_pos ht]
        exact hbody env r hr
      next ht =>
        rw [if_neg ht]
        exact hrest env r hr

end

theorem includer_refines (m : Setting) (depth : Nat) :
    IncluderRefines (includer m depth) (includer m (depth + 1)) := by
  induction depth with
  | zero => exact fun _ _ _ _ hr => nomatch hr
  | succ depth ih =>
      intro name d env r hr
      rw [includer, Option.bind_eq_bind] at hr ⊢
      obtain ⟨t, ht, hr⟩ := Option.bind_eq_some_iff.1 hr
      obtain ⟨b, hb, hr⟩ := Option.bind_eq_some_iff.1 hr
      exact Option.bind_eq_some_iff.2 ⟨t, ht, Option.bind_eq_some_iff.2 ⟨b, runAll_refines ih t.nodes _ _ hb, hr⟩⟩

theorem render_mono {depth depth' : Nat} (hle : depth ≤ depth') {t : Template} {data : Dict Value}
    {x : String × Dict Value} (h : render m depth t data = some x) : render m depth' t data = some x := by
  induction hle with
  | refl => exact h
  | step _ ih =>
      rw [render] at ih ⊢
      obtain ⟨b, hb, hr⟩ := Option.bind_eq_some_iff.1 ih
      exact Option.bind_eq_some_iff.2 ⟨b, runAll_refines (includer_refines m _) t.nodes _ _ hb, hr⟩

end Reference

namespace Renderer

variable (r : Renderer) (t : Template) (data : Dict Value)

open Reference in
theorem run_agrees :
    Agrees r.engine (r.start data) (Node.processAll r.engine (r.engine.includer r.includeLimit) t.nodes
      (r.start data)) (runAll r.setting (includer r.setting r.includeLimit) t.nodes
        [⟨.file, []⟩, ⟨.globals, data⟩]) :=
  agree_runAll (agree_includer r.includeLimit) t.nodes (r.start data) _ rfl (r.start_sound data)

/-- A render records an error exactly when the reference has no result at the same depth of includes.
Otherwise the reference has the output of the render and the global variables that it leaves, with room
for includes of any greater depth as well. -/
theorem render_eq_reference :
    ((r.render t data).2.errors = [] ↔ (Reference.render r.setting r.includeLimit t data).isSome) ∧
    ((r.render t data).2.errors = [] → ∃ globals, (r.render t data).2.globals? = some globals ∧
      ∀ depth, r.includeLimit ≤ depth →
        Reference.render r.setting depth t data = some ((r.render t data).1, globals)) := by
  obtain ⟨file, globals, hframes, _⟩ := r.run_frames t data
  have hglobals := r.globals_render hframes
  obtain ⟨e, st, hr, hq⟩ | ⟨st, res, hr, hq, hs, ho, _⟩ := (r.run_agrees t data).cases
  · have hrun : r.run t data = (st, some e.error) := by rw [run, hr]
    have herr : (r.render t data).2.errors ≠ [] := by simp [render, hrun]
    refine ⟨⟨fun h => absurd h herr, ?_⟩, fun h => absurd h herr⟩
    simp [Reference.render, hq]
  · have hrun : r.run t data = (st, none) := by rw [run, hr]
    have hout : (r.render t data).1 = if res.outcome = .discard then "" else res.text := by
      have hdiscard : st.scope.signals.discard = decide (res.outcome = .discard) := by
        rw [hs]
        cases res.outcome <;> rfl
      have hempty : (r.start data).output = "" := rfl
      simp [render, hrun, marked, hdiscard, ho, hempty]
    have href : Reference.render r.setting r.includeLimit t data = some ((r.render t data).1, globals) := by
      rw [hrun, hs] at hframes
      have henv : res.env = [⟨.file, file⟩, ⟨.globals, globals⟩] := hframes
      simp [Reference.render, hq, henv, hout]
    refine ⟨by simp [render, hrun, href], fun _ => ⟨globals, hglobals, ?_⟩⟩
    intro depth hd
    exact Reference.render_mono hd href

def cutShort : Template where
  source := ""
  path := none
  nodes := [.capture "shown" [.loop "x" (.array [.literal (.int 1) 0, .literal (.int 2) 0] 0)
      [.output (.variable "x" 0),
        .branch [(.member (.variable "forloop" 0) "first" 0, [.embed "skip" [] 0])] 0, .text "," 0] 0] 0,
    .assign "seen" (.variable "shown" 0) .everywhere 0, .output (.variable "shown" 0)]

def skipping : Renderer :=
  (new .standard).register "skip" ⟨"", none, [.signal .nextRound 0, .text "never" 0]⟩

theorem render_eq_reference_cutShort :
    (skipping.render cutShort []).2.errors = [] ∧
      (skipping.render cutShort []).2.globals? = some [("seen", .string "12,")] ∧
      Reference.render skipping.setting 1000 cutShort [] = some ("12,", [("seen", .string "12,")]) := by
  have h : (skipping.render cutShort []).2.errors = [] := by decide +kernel
  have ho : (skipping.render cutShort []).1 = "12," := by decide +kernel
  have hseen : (skipping.render cutShort []).2.globals? = some [("seen", .string "12,")] := rfl
  obtain ⟨globals, hg, hr⟩ := (skipping.render_eq_reference cutShort []).2 h
  obtain rfl := Option.some.inj (hseen.symm.trans hg)
  exact ⟨h, hseen, by rw [hr 1000 (by decide), ho]⟩

end Renderer

end Stencil
