import Tabletop.Proofs.Printing
import Tabletop.Stream.Feed

/-!
What holds of a feed because it holds of the answer to each line.
-/

namespace Tabletop

variable {σ τ : Type} {respond : Nat → String → σ → Reply σ} {n : Nat} {line : String}
variable {lines rest : List (Except ReadFault String)} {state : σ} {p u limits : Ports}

theorem feed_ok_of_fault {fault : WriteFault}
    (h : (p.printAll (respond n line state).emissions).2 = some fault) :
    feed respond n (.ok line :: rest) state p =
      .failed (respond n line state).state (p.printAll (respond n line state).emissions).1
        (.write fault) := by
  simp only [feed]
  rcases hp : p.printAll (respond n line state).emissions with ⟨q, found⟩
  rw [hp] at h
  cases h
  rfl

theorem feed_ok_of_none (h : (p.printAll (respond n line state).emissions).2 = none) :
    feed respond n (.ok line :: rest) state p =
      if (respond n line state).stop then
        .flushed (respond n line state).state (p.printAll (respond n line state).emissions).1
      else
        feed respond (n + 1) rest (respond n line state).state
          (p.printAll (respond n line state).emissions).1 := by
  simp only [feed]
  rcases hp : p.printAll (respond n line state).emissions with ⟨q, found⟩
  rw [hp] at h
  cases h
  rfl

/-- What every answer keeps is kept by a feed, however it ends. -/
theorem feed_state {P : σ → Prop}
    (hrespond : ∀ n line state, P state → P (respond n line state).state) (h : P state) :
    P (feed respond n lines state p).state := by
  induction lines generalizing n state p with
  | nil => exact h
  | cons line rest ih =>
    cases line with
    | error fault => exact h
    | ok line =>
      have hnext := hrespond n line state h
      cases hprint : (p.printAll (respond n line state).emissions).2 with
      | some fault =>
        rw [feed_ok_of_fault hprint]
        exact hnext
      | none =>
        rw [feed_ok_of_none hprint]
        split
        · exact hnext
        · exact ih hnext

/-- Reliable ports are flushed without a fault. -/
theorem Ports.Reliable.flushed (hu : u.Reliable) (state : σ) :
    Ending.flushed state u = ⟨state, u, none, [.out, .diag]⟩ := by
  rw [Ending.flushed, Ports.flush?, hu.flush_eq]
  rfl

/-- What is flushed in view of how it ends: nothing at a line that cannot be read or answered. -/
def Ports.flushesAt (p : Ports) : Option Failure → List Channel
  | none | some (.write .flush) => p.flush.1
  | some _ => []

theorem Ports.flushesAt_of_sameLimits {q : Ports} (h : p.SameLimits q) (failure? : Option Failure) :
    p.flushesAt failure? = q.flushesAt failure? := by
  unfold flushesAt
  rw [h.flush_eq]

theorem Ending.flushes_flushed (state : σ) (p : Ports) :
    (Ending.flushed state p).flushes = p.flushesAt (Ending.flushed state p).failure? := by
  rcases p.eq_flush_of_flush? with hflush | hflush <;>
    simp only [flushed, hflush, Option.map_none, Option.map_some, Ports.flushesAt]

/-- A feed flushes at its end and nowhere before. -/
theorem feed_flushes (n : Nat) (lines : List (Except ReadFault String)) (state : σ) (p : Ports) :
    (feed respond n lines state p).flushes =
      p.flushesAt (feed respond n lines state p).failure? := by
  induction lines generalizing n state p with
  | nil => exact Ending.flushes_flushed state p
  | cons line rest ih =>
    cases line with
    | error fault => rfl
    | ok line =>
      have hlimits := p.sameLimits_printAll (respond n line state).emissions
      cases hprint : (p.printAll (respond n line state).emissions).2 with
      | some fault =>
        rw [feed_ok_of_fault hprint, Ports.eq_full_of_printAll hprint]
        rfl
      | none =>
        rw [feed_ok_of_none hprint, ← Ports.flushesAt_of_sameLimits hlimits]
        split
        · exact Ending.flushes_flushed _ _
        · exact ih _ _ _

/-- Answers that print their diagnostics before their reports. -/
def PrintsDiagFirst (respond : Nat → String → σ → Reply σ) : Prop :=
  ∀ n line state, DiagFirst (respond n line state).emissions

/-- How a feed that ended goes on if there are more lines, the first of them numbered `n`: a line
that could not be read or answered ends it all the same, but nothing is flushed before the last. -/
def Ending.goOn (respond : Nat → String → σ → Reply σ) (n : Nat)
    (rest : List (Except ReadFault String)) (e : Ending σ) : Ending σ :=
  match e.failure? with
  | none | some (.write .flush) => feed respond n rest e.state e.ports
  | some _ => e

theorem Ending.goOn_flushed (rest : List (Except ReadFault String)) :
    (Ending.flushed state p).goOn respond n rest = feed respond n rest state p := by
  rcases p.eq_flush_of_flush? with hflush | hflush <;>
    simp only [goOn, flushed, hflush, Option.map_none, Option.map_some]

theorem feed_append (hgoesOn : ∀ n line state, (respond n line state).stop = false) :
    feed respond n (lines ++ rest) state p =
      (feed respond n lines state p).goOn respond (n + lines.length) rest := by
  induction lines generalizing n state p with
  | nil => exact (Ending.goOn_flushed rest).symm
  | cons line lines ih =>
    have hlength : n + (lines.length + 1) = n + 1 + lines.length := by omega
    rw [List.cons_append, List.length_cons, hlength]
    cases line with
    | error fault => rfl
    | ok text =>
      have hstop : ¬ (respond n text state).stop = true := by
        rw [hgoesOn]
        exact Bool.false_ne_true
      cases hprint : (p.printAll (respond n text state).emissions).2 with
      | some fault =>
        -- Printing fails for lack of room only, which is not the fault of a flush.
        have hfull := Ports.eq_full_of_printAll hprint
        rw [feed_ok_of_fault hprint, feed_ok_of_fault hprint, hfull]
        rfl
      | none =>
        rw [feed_ok_of_none hprint, feed_ok_of_none hprint, if_neg hstop, if_neg hstop]
        exact ih

/-- The lines that are come to before one that leaves. -/
def reached (leaves : String → Bool) (lines : List (Except ReadFault String)) :
    List (Except ReadFault String) :=
  lines.takeWhile fun
    | .ok text => !leaves text
    | .error _ => true

variable {leaves : String → Bool} {k : Nat} {text : String} {fault : ReadFault}

theorem reached_of_leaves (h : leaves text = true) : reached leaves (.ok text :: rest) = [] := by
  simp only [reached, List.takeWhile_cons, h, Bool.not_true, Bool.false_eq_true, if_false]

theorem reached_of_stays (h : leaves text = false) :
    reached leaves (.ok text :: rest) = .ok text :: reached leaves rest := by
  simp only [reached, List.takeWhile_cons, h, Bool.not_false, if_true]

theorem take_eq_take_reached (h : k ≤ (reached leaves lines).length) :
    lines.take k = (reached leaves lines).take k := by
  obtain ⟨rest, hrest⟩ : reached leaves lines <+: lines := List.takeWhile_prefix _
  rw [← List.take_append_of_le_length h, hrest]

theorem exists_unreadable (h : ¬ ∀ line ∈ lines, ∃ text, line = .ok text) :
    ∃ k fault, (∀ line ∈ lines.take k, ∃ text, line = .ok text) ∧
      lines[k]? = some (.error fault) := by
  induction lines with
  | nil => exact (h fun _ hline => nomatch hline).elim
  | cons line rest ih =>
    cases line with
    | error fault => exact ⟨0, fault, fun _ hline => (nomatch hline), rfl⟩
    | ok text =>
      have hrest : ¬ ∀ line ∈ rest, ∃ text, line = .ok text := by
        intro hrest
        exact h (List.forall_mem_cons.2 ⟨⟨text, rfl⟩, hrest⟩)
      obtain ⟨k, fault, hok, herror⟩ := ih hrest
      exact ⟨k + 1, fault, List.forall_mem_cons.2 ⟨⟨text, rfl⟩, hok⟩, herror⟩

theorem feed_failure_of_reached (hrespond : PrintsDiagFirst respond)
    (hstop : ∀ n text state, (respond n text state).stop = leaves text) (hu : u.Reliable)
    (hok : ∀ line ∈ reached leaves lines, ∃ text, line = .ok text) :
    (feed respond n lines state u).failure? = none := by
  induction lines generalizing n state u with
  | nil => rw [feed, hu.flushed]
  | cons line rest ih =>
    cases line with
    | error fault =>
      obtain ⟨text, htext⟩ := hok _ List.mem_cons_self
      cases htext
    | ok text =>
      rw [feed_ok_of_none (hu.printAll (hrespond n text state)).1, hstop]
      cases hleaves : leaves text with
      | true => rw [if_pos rfl, (hu.printed _).flushed]
      | false =>
        rw [reached_of_stays hleaves] at hok
        rw [if_neg Bool.false_ne_true]
        exact ih (hu.printed _) (List.forall_mem_cons.1 hok).2

theorem feed_failure_of_ok (hrespond : PrintsDiagFirst respond)
    (hgoesOn : ∀ n line state, (respond n line state).stop = false) (hu : u.Reliable)
    (hok : ∀ line ∈ lines, ∃ text, line = .ok text) :
    (feed respond n lines state u).failure? = none := by
  apply feed_failure_of_reached hrespond hgoesOn hu
  intro line hline
  exact hok line ((List.takeWhile_prefix _).subset hline)

/-- A line that cannot be read ends a feed where the lines before it alone would have ended it. -/
theorem feed_of_unreadable (hrespond : PrintsDiagFirst respond)
    (hstop : ∀ n text state, (respond n text state).stop = leaves text) (hu : u.Reliable)
    (hok : ∀ line ∈ (reached leaves lines).take k, ∃ text, line = .ok text)
    (herror : (reached leaves lines)[k]? = some (.error fault)) :
    feed respond n lines state u =
        .failed (feed respond n (lines.take k) state u).state
          (feed respond n (lines.take k) state u).ports (.read (n + k) fault) ∧
      (feed respond n (lines.take k) state u).failure? = none := by
  -- The lines before it have no fault of their own, and flushing reliable ports finds none either.
  induction lines generalizing n k state u with
  | nil => cases herror
  | cons line rest ih =>
    cases line with
    | error fault =>
      cases k with
      | zero =>
        cases herror
        rw [List.take_zero, feed, feed, hu.flushed]
        exact ⟨rfl, rfl⟩
      | succ k =>
        obtain ⟨text, htext⟩ := hok _ List.mem_cons_self
        cases htext
    | ok text =>
      have hprint := (hu.printAll (hrespond n text state)).1
      cases hleaves : leaves text with
      | true =>
        rw [reached_of_leaves hleaves] at herror
        cases herror
      | false =>
        rw [reached_of_stays hleaves] at hok herror
        cases k with
        | zero => cases herror
        | succ k =>
          have hnumber : n + (k + 1) = n + 1 + k := by omega
          rw [List.take_succ_cons, feed_ok_of_none hprint, feed_ok_of_none hprint, hstop, hleaves,
            if_neg Bool.false_ne_true, if_neg Bool.false_ne_true, hnumber]
          exact ih (hu.printed _) (List.forall_mem_cons.1 hok).2 herror

theorem feed_append_of_ok (hrespond : PrintsDiagFirst respond)
    (hgoesOn : ∀ n line state, (respond n line state).stop = false) (hu : u.Reliable)
    (hok : ∀ line ∈ lines, ∃ text, line = .ok text) (rest : List (Except ReadFault String)) :
    feed respond n (lines ++ rest) state u =
      feed respond (n + lines.length) rest (feed respond n lines state u).state
        (feed respond n lines state u).ports := by
  have hnone : (feed respond n lines state u).failure? = none :=
    feed_failure_of_ok hrespond hgoesOn hu hok
  rw [feed_append hgoesOn, Ending.goOn, hnone]

/-- The answers to lines up to the one that cannot be read or ends the feed. -/
def replies (respond : Nat → String → σ → Reply σ) (n : Nat) :
    List (Except ReadFault String) → σ → List (Reply σ)
  | .ok line :: rest, state =>
    let reply := respond n line state
    reply :: if reply.stop then [] else replies respond (n + 1) rest reply.state
  | _, _ => []

theorem feed_bytes (hrespond : PrintsDiagFirst respond) (hu : u.Reliable) (n : Nat)
    (lines : List (Except ReadFault String)) (state : σ) :
    (feed respond n lines state u).ports.out.bytes =
        u.out.bytes ++ bytesOn .out ((replies respond n lines state).flatMap Reply.emissions) ∧
      (feed respond n lines state u).ports.diag.bytes =
        u.diag.bytes ++
          bytesOn .diag ((replies respond n lines state).flatMap Reply.emissions) := by
  induction lines generalizing n state u with
  | nil => exact ⟨(List.append_nil _).symm, (List.append_nil _).symm⟩
  | cons line rest ih =>
    cases line with
    | error fault => exact ⟨(List.append_nil _).symm, (List.append_nil _).symm⟩
    | ok text =>
      obtain ⟨hprint, hout, hdiag⟩ := hu.printAll (hrespond n text state)
      simp only [feed_ok_of_none hprint, replies, List.flatMap_cons]
      split
      · rw [List.flatMap_nil, List.append_nil]
        exact ⟨hout, hdiag⟩
      · obtain ⟨houtRest, hdiagRest⟩ :=
          ih (hu.printed _) (n + 1) (respond n text state).state
        rw [houtRest, hdiagRest, hout, hdiag, bytesOn_append, bytesOn_append, List.append_assoc,
          List.append_assoc]
        exact ⟨rfl, rfl⟩

/-- Prints a header and then feeds lines. -/
def announce (header : List Emission) (respond : Nat → String → σ → Reply σ)
    (lines : List (Except ReadFault String)) (state : σ) (ports : Ports) : Ending σ :=
  match ports.printAll header with
  | (ports, some fault) => .failed state ports (.write fault)
  | (ports, none) => feed respond 1 lines state ports

variable {header : List Emission}

theorem announce_of_fault {fault : WriteFault} (h : (p.printAll header).2 = some fault) :
    announce header respond lines state p =
      .failed state (p.printAll header).1 (.write fault) := by
  rw [announce]
  rcases hp : p.printAll header with ⟨q, found⟩
  rw [hp] at h
  cases h
  rfl

theorem announce_of_none (h : (p.printAll header).2 = none) :
    announce header respond lines state p =
      feed respond 1 lines state (p.printAll header).1 := by
  rw [announce]
  rcases hp : p.printAll header with ⟨q, found⟩
  rw [hp] at h
  cases h
  rfl

theorem announce_flushes (header : List Emission) (lines : List (Except ReadFault String))
    (state : σ) (p : Ports) :
    (announce header respond lines state p).flushes =
      p.flushesAt (announce header respond lines state p).failure? := by
  cases hprint : (p.printAll header).2 with
  | some fault =>
    rw [announce_of_fault hprint, Ports.eq_full_of_printAll hprint]
    rfl
  | none =>
    rw [announce_of_none hprint, ← Ports.flushesAt_of_sameLimits (p.sameLimits_printAll header)]
    exact feed_flushes 1 lines state _

theorem announce_of_reliable (hu : u.Reliable) (hheader : ∀ e ∈ header, e.channel = .out) :
    announce header respond lines state u =
      feed respond 1 lines state (u.printAll header).1 :=
  announce_of_none (hu.printAll (.of_out hheader)).1

end Tabletop
