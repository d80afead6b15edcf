import Tabletop.Proofs.Lines
import Tabletop.Proofs.Session

/-!
Where output ends that is too much for its sinks, and what the session is then.
-/

namespace Tabletop

variable {σ : Type} {respond : Nat → String → σ → Reply σ} {n : Nat}
variable {lines rest : List (Except ReadFault String)} {state : σ} {p u limits : Ports}

open Ports

/-- An ending that differs from the one with reliable ports at most in a failed flush. -/
structure Uncut (limits : Ports) (full uncut : Ending σ) : Prop where
  state : uncut.state = full.state
  tracks : Tracks limits uncut.ports full.ports
  failure : uncut.failure? = full.failure?.or (limits.flush?.map .write)
  flushes : uncut.flushes = if full.failure?.isNone then limits.flush.1 else []

theorem Uncut.flushed (h : Tracks limits p u) (hu : u.Reliable) (state : σ) :
    Uncut limits (.flushed state u) (.flushed state p) := by
  rw [hu.flushed, Ending.flushed, flush?, h.sameLimits.flush_eq]
  exact ⟨rfl, h, rfl, rfl⟩

variable {header : List Emission} {op : Source → Ports → Ending σ} {source : Source}

theorem Ports.Clipped.full {before after p : Ports} (h : Clipped limits before after p)
    (hover : ¬ limits.Admits after) :
    limits.out.capacity = some p.out.bytes.length ∨
      limits.diag.capacity = some p.diag.bytes.length := by
  by_cases hfits : Fits limits.diag.capacity after.diag.bytes
  · rw [(h.out_full hfits).1]
    exact .inl (length_clip_of_not_fits fun hout => hover ⟨hout, hfits⟩)
  · rw [(h.diag_full hfits).2]
    exact .inr (length_clip_of_not_fits hfits)

theorem Ports.Admits.nil : limits.Admits {} :=
  ⟨Fits.nil, Fits.nil⟩

section Announce

variable (hop : ∀ source ports, op source ports = announce header respond source.lines state ports)
variable (hheader : ∀ e ∈ header, e.channel = .out) (hrespond : PrintsDiagFirst respond)

include hop hheader

include hrespond

end Announce

namespace Session

end Session

end Tabletop
