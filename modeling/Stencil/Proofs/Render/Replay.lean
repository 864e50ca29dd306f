import Stencil.Proofs.Render.Blind
import Stencil.Proofs.Render.Rebound

namespace Stencil

theorem Loader.search_append {name : String} {loaders : List Loader} {t : Template}
    (h : search name loaders = .ok t) (more : List Loader) : search name (loaders ++ more) = .ok t := by
  induction loaders with
  | nil => cases h
  | cons l rest ih =>
      rw [search] at h
      rw [List.cons_append, search]
      split at h
      · exact h
      · exact ih h
      · cases h

namespace Renderer

variable {r r' : Renderer}

theorem provides_addLoader (r : Renderer) (l : Loader) (name : String) :
    (r.addLoader l).provides name =
      (r.provides name).or (Loader.search name (r.loaders ++ [l])).toOption := by
  have hadd : (r.addLoader l).provides name =
      (Engine.mk r.hooks.stringify r.filters (r.loaders ++ [l])).provide r.templates name := rfl
  rw [hadd, provides, Engine.provide, Engine.provide]
  cases r.templates.get? name with
  | some t => rfl
  | none =>
      -- a name that was found before is found again, in the same loader
      show _ = ((Loader.search name r.loaders).toOption).or _
      cases hs : Loader.search name r.loaders with
      | error fault => rfl
      | ok t =>
          dsimp only
          rw [Loader.search_append hs]
          rfl

theorem provides_register (r : Renderer) (key : String) (t : Template) (name : String) :
    (r.register key t).provides name = if name = key then some t else r.provides name := by
  have hput : (r.register key t).provides name = r.engine.provide (r.templates.insert key t) name := rfl
  rw [hput, Engine.provide, Dict.get?_insert]
  by_cases h : name = key
  · rw [if_pos h, if_pos h]
  · rw [if_neg h, if_neg h]
    rfl

structure Twins (r r' : Renderer) : Prop where
  hooks : r'.hooks = r.hooks
  filters : r'.filters = r.filters
  loaders : r'.loaders = r.loaders
  marksErrors : r'.marksErrors = r.marksErrors
  includeLimit : r'.includeLimit = r.includeLimit
  provides : r'.provides = r.provides

namespace Twins

theorem refl (r : Renderer) : r.Twins r :=
  ⟨rfl, rfl, rfl, rfl, rfl, rfl⟩

theorem engine (h : r.Twins r') : r'.engine = r.engine := by
  rw [Renderer.engine, h.hooks, h.filters, h.loaders]
  rfl

theorem run (h : r.Twins r') (t : Template) (data : Dict Value) :
    (r'.run t data).2 = (r.run t data).2 ∧ (r'.run t data).1.scope = (r.run t data).1.scope ∧
      (r'.run t data).1.output = (r.run t data).1.output := by
  have hp : r.engine.provide r'.templates = r.engine.provide r.templates := by
    have hp : r'.engine.provide r'.templates = r.engine.provide r.templates := h.provides
    rwa [h.engine] at hp
  have hstart : (r.start data).Twins r.engine (r'.start data) := ⟨rfl, rfl, hp⟩
  have hrun := Rendering.Blind.processAll r.engine r.includeLimit t _ _ hstart
  rw [Renderer.run, Renderer.run, h.engine, h.includeLimit]
  obtain ⟨_, st, st', hr, hr', hs⟩ | ⟨e, st, st', hr, hr', hs⟩ := hrun.cases
  · rw [hr, hr']
    exact ⟨rfl, hs.scope, hs.output⟩
  · rw [hr, hr']
    exact ⟨rfl, hs.scope, hs.output⟩

theorem render (h : r.Twins r') (t : Template) (data : Dict Value) :
    (r'.render t data).1 = (r.render t data).1 ∧
      (r'.render t data).2.errors = (r.render t data).2.errors ∧
      (r'.render t data).2.globals? = (r.render t data).2.globals? := by
  obtain ⟨he, hs, ho⟩ := h.run t data
  obtain ⟨hshown, herrors⟩ := render_eq_of_run he ho (congrArg Scope.signals hs) h.hooks h.marksErrors
  refine ⟨hshown, herrors, ?_⟩
  show (((r'.run t data).1.scope.clearSignals).truncate 1).globals? =
    (((r.run t data).1.scope.clearSignals).truncate 1).globals?
  rw [hs]

theorem rendered (h : r.Twins r') (t : Template) (data : Dict Value) : (r.render t data).2.Twins r' := by
  obtain ⟨_, _, hkeep, _⟩ := r.run_ended t data
  exact ⟨h.hooks, h.filters, h.loaders, h.marksErrors, h.includeLimit, h.provides.trans hkeep.provide.symm⟩

theorem register (h : r.Twins r') (name : String) (t : Template) :
    (r.register name t).Twins (r'.register name t) := by
  refine ⟨h.hooks, h.filters, h.loaders, h.marksErrors, h.includeLimit, ?_⟩
  funext other
  rw [provides_register, provides_register, h.provides]

theorem addLoader (h : r.Twins r') (l : Loader) : (r.addLoader l).Twins (r'.addLoader l) := by
  refine ⟨h.hooks, h.filters, congrArg (· ++ [l]) h.loaders, h.marksErrors, h.includeLimit, ?_⟩
  funext name
  rw [provides_addLoader, provides_addLoader, h.provides, h.loaders]

theorem addFilter (h : r.Twins r') (name : String) (f : Filter) :
    (r.addFilter name f).Twins (r'.addFilter name f) :=
  ⟨h.hooks, congrArg (·.register name f) h.filters, h.loaders, h.marksErrors, h.includeLimit, h.provides⟩

end Twins

inductive Step where
  | register (name : String) (t : Template)
  | addLoader (l : Loader)
  | addFilter (name : String) (f : Filter)
  | render (t : Template) (data : Dict Value)

def Step.isRender : Step → Bool
  | .render _ _ => true
  | _ => false

def step (r : Renderer) : Step → Renderer
  | .register name t => r.register name t
  | .addLoader l => r.addLoader l
  | .addFilter name f => r.addFilter name f
  | .render t data => (r.render t data).2

def after (r : Renderer) (steps : List Step) : Renderer :=
  steps.foldl step r

theorem Twins.after (h : r.Twins r') (steps : List Step) :
    (r.after steps).Twins (r'.after (steps.filter (!·.isRender))) := by
  induction steps generalizing r r' with
  | nil => exact h
  | cons s rest ih =>
      cases s with
      | register name t => exact ih (h.register name t)
      | addLoader l => exact ih (h.addLoader l)
      | addFilter name f => exact ih (h.addFilter name f)
      | render t data => exact ih (h.rendered t data)

/-- In a session of any steps each render has the output, the errors and the global variables that it has
where none of the renders before it were made. -/
theorem render_replayed (r : Renderer) (before : List Step) (t : Template) (data : Dict Value) :
    let used := (r.after before).render t data
    let fresh := (r.after (before.filter (!·.isRender))).render t data
    used.1 = fresh.1 ∧ used.2.errors = fresh.2.errors ∧ used.2.globals? = fresh.2.globals? := by
  obtain ⟨ho, he, hg⟩ := ((Twins.refl r).after before).render t data
  exact ⟨ho.symm, he.symm, hg.symm⟩

end Renderer

end Stencil
