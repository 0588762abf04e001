import InvoiceXml.Rendering.Basic

/-!
# Hooks

Hooks see what passes between the stages of a rendering and may replace it: the data before the document is
assembled, the document after that and again before its markup is written, and the markup at last. They run
in this order, each before the next stage, and only as far as the rendering comes.

Hooks that replace nothing change nothing (`renderWith_none`).
-/

namespace InvoiceXml

/-- What may happen between the stages; a hook gives what takes the place of what it saw, if anything. -/
structure Hooks (m : Type → Type) where
  beforeAssembly : Data → m (Option Data)
  afterAssembly : Document → m (Option Document)
  beforeWriting : Document → m (Option Document)
  afterWriting : String → m (Option String)

namespace Hooks

/-- Hooks that replace nothing. -/
def none {m : Type → Type} [Monad m] : Hooks m where
  beforeAssembly _ := pure Option.none
  afterAssembly _ := pure Option.none
  beforeWriting _ := pure Option.none
  afterWriting _ := pure Option.none

/-- What a hook leaves. -/
def pass {m : Type → Type} [Monad m] {α : Type} (hook : α → m (Option α)) (a : α) : m α := do
  return (← hook a).getD a

end Hooks

namespace Renderer

/-- The markup of the document of data, with hooks between the stages. -/
def renderWith {m : Type → Type} [Monad m] (renderer : Renderer) (hooks : Hooks m) (time : Option Instant)
    (data : Data) : m (Except RenderError String) := do
  match renderer.validate data with
  | .error error => return .error error
  | .ok data =>
    match renderer.document time (← Hooks.pass hooks.beforeAssembly data) with
    | .error error => return .error error
    | .ok document =>
      let document ← Hooks.pass hooks.afterAssembly document
      let document ← Hooks.pass hooks.beforeWriting document
      return .ok (← Hooks.pass hooks.afterWriting (renderer.write document))

/-- Hooks that replace nothing leave the rendering as it is. -/
theorem renderWith_none {m : Type → Type} [Monad m] [LawfulMonad m] (renderer : Renderer)
    (time : Option Instant) (data : Data) :
    renderer.renderWith (Hooks.none : Hooks m) time data = pure (renderer.render time data) := by
  simp only [renderWith, render, Hooks.pass, Hooks.none, pure_bind, Option.getD_none, bind, Except.bind]
  cases renderer.validate data with
  | error error => rfl
  | ok data =>
    simp only
    cases renderer.document time data <;> rfl

end Renderer

end InvoiceXml
