import Tabletop.Stream.Sink

/-!
Printing to sinks with a limit, compared with printing to sinks without one.
-/

namespace Tabletop

variable {capacity : Option Nat} {a b bs : Bytes} {s : Sink}

/-- Bytes that a capacity, if there is one, leaves room for. -/
def Fits (capacity : Option Nat) (bs : Bytes) : Prop :=
  ∀ n ∈ capacity, bs.length ≤ n

instance : Decidable (Fits capacity bs) :=
  inferInstanceAs (Decidable (∀ n ∈ capacity, bs.length ≤ n))

/-- The first bytes, as many as a capacity leaves room for. -/
def clip (capacity : Option Nat) (bs : Bytes) : Bytes :=
  match capacity with
  | none => bs
  | some n => bs.take n

theorem Fits.nil : Fits capacity [] :=
  fun n _ => Nat.zero_le n

theorem Fits.clip_eq (h : Fits capacity bs) : clip capacity bs = bs := by
  cases capacity with
  | none => rfl
  | some n => exact List.take_of_length_le (h n rfl)

/-- Bytes that do not fit fill the capacity to its last place. -/
theorem length_clip_of_not_fits (h : ¬ Fits capacity bs) :
    capacity = some (clip capacity bs).length := by
  cases capacity with
  | none => exact (h fun n hn => nomatch hn).elim
  | some n =>
    have hlt : n < bs.length := by
      apply Nat.lt_of_not_le
      intro hle
      exact h fun m hm => by cases hm; exact hle
    simp only [clip, List.length_take, Nat.min_eq_left (Nat.le_of_lt hlt)]

namespace Sink

theorem write_nil (s : Sink) : s.write [] = (s, none) := by
  have h : s.fitting [] = [] := List.prefix_nil.1 (fitting_isPrefix s [])
  simp [write, h]

theorem append_fitting (h : Fits s.capacity s.bytes) (bs : Bytes) :
    s.bytes ++ s.fitting bs = clip s.capacity (s.bytes ++ bs) := by
  obtain ⟨capacity, failsFlush, received⟩ := s
  cases capacity with
  | none => rfl
  | some n =>
    have hle : received.toList.length ≤ n := h n rfl
    simp [fitting, clip, bytes, List.take_append, List.take_of_length_le hle]

/-- A sink within its capacity keeps of its whole content what the capacity allows. -/
theorem bytes_write_eq_clip (h : Fits s.capacity s.bytes) (bs : Bytes) :
    (s.write bs).1.bytes = clip s.capacity (s.bytes ++ bs) := by
  rw [bytes_write, append_fitting h]

theorem write_fault (h : Fits s.capacity s.bytes) (bs : Bytes) :
    (s.write bs).2 = if Fits s.capacity (s.bytes ++ bs) then none else some .full := by
  have hlen := congrArg List.length (append_fitting h bs)
  by_cases hfit : Fits s.capacity (s.bytes ++ bs)
  · rw [if_pos hfit, write_eq_none_iff]
    rw [hfit.clip_eq] at hlen
    exact (fitting_isPrefix s bs).eq_of_length (by simpa using hlen)
  · rw [if_neg hfit]
    have hne : (s.fitting bs).length ≠ bs.length := by
      intro he
      apply hfit
      intro n hn
      have hc := length_clip_of_not_fits hfit
      rw [← hlen] at hc
      simp only [Option.mem_def] at hn
      rw [hn] at hc
      cases hc
      simp [he]
    simp [write, hne]

theorem write_of_capacity_none (h : s.capacity = none) (bs : Bytes) :
    (s.write bs).2 = none ∧ (s.write bs).1.bytes = s.bytes ++ bs := by
  have hall : s.fitting bs = bs := by simp only [fitting, h]
  rw [write_eq_none_iff, bytes_write, hall]
  exact ⟨rfl, rfl⟩

/-- Writing in two parts is writing at once. -/
theorem write_append (s : Sink) (a b : Bytes) :
    s.write (a ++ b) =
      match s.write a with
      | (s, some fault) => (s, some fault)
      | (s, none) => s.write b := by
  obtain ⟨capacity, failsFlush, ⟨received⟩⟩ := s
  cases capacity with
  | none => simp [write, fitting]
  | some n =>
    by_cases h : a.length ≤ n - received.length
    · have ha : a.take (n - received.length) = a := List.take_of_length_le h
      simp [write, fitting, ha, List.take_append, Nat.sub_sub]
    · have hb : n - received.length - a.length = 0 := by omega
      have hpart : ¬ min (n - received.length) a.length = a.length := by omega
      have hwhole : ¬ min (n - received.length) a.length = a.length + b.length := by omega
      simp [write, fitting, List.take_append, hb, hpart, hwhole]

end Sink

variable {e : Emission} {es : List Emission} {p u : Ports}

/-- The bytes that emissions send to a channel. -/
def bytesOn (c : Channel) (es : List Emission) : Bytes :=
  (es.filter fun e => e.channel = c).flatMap Emission.bytes

theorem bytesOn_cons_self (e : Emission) (es : List Emission) :
    bytesOn e.channel (e :: es) = e.bytes ++ bytesOn e.channel es := by
  simp [bytesOn]

theorem bytesOn_cons_of_ne {c : Channel} (h : e.channel ≠ c) :
    bytesOn c (e :: es) = bytesOn c es := by
  simp [bytesOn, h]

theorem bytesOn_append (c : Channel) (es fs : List Emission) :
    bytesOn c (es ++ fs) = bytesOn c es ++ bytesOn c fs := by
  rw [bytesOn, List.filter_append, List.flatMap_append, bytesOn, bytesOn]

theorem bytesOn_flatMap {α : Type} (c : Channel) (l : List α) (f : α → List Emission) :
    bytesOn c (l.flatMap f) = l.flatMap fun a => bytesOn c (f a) := by
  induction l with
  | nil => rfl
  | cons a l ih => rw [List.flatMap_cons, bytesOn_append, ih, List.flatMap_cons]

/-- Nothing goes to `diag` once something went to `out`. -/
def DiagFirst (es : List Emission) : Prop :=
  es.Pairwise fun e f => e.channel = .out → f.channel = .out

theorem DiagFirst.of_out {es : List Emission} (h : ∀ e ∈ es, e.channel = .out) : DiagFirst es :=
  List.pairwise_of_forall_mem_list fun _ _ f hf _ => h f hf

theorem bytesOn_diag_of_out (h : ∀ e ∈ es, e.channel = .out) : bytesOn .diag es = [] := by
  induction es with
  | nil => rfl
  | cons e es ih =>
    have he : e.channel ≠ .diag := by
      rw [h e List.mem_cons_self]
      decide
    rw [bytesOn_cons_of_ne he]
    exact ih fun f hf => h f (List.mem_cons_of_mem e hf)

namespace Ports

/-- What a batch of emissions does to the ports: one write to each of them, `diag` before `out`. -/
theorem printAll_eq (h : DiagFirst es) (p : Ports) :
    p.printAll es =
      match p.diag.write (bytesOn .diag es) with
      | (diag, some fault) => ({ p with diag }, some fault)
      | (diag, none) =>
        ({ out := (p.out.write (bytesOn .out es)).1, diag },
          (p.out.write (bytesOn .out es)).2) := by
  induction es generalizing p with
  | nil => simp only [printAll, bytesOn, List.filter_nil, List.flatMap_nil, Sink.write_nil]
  | cons e es ih =>
    obtain ⟨hfirst, hrest⟩ := List.pairwise_cons.1 h
    obtain ⟨channel, text⟩ := e
    cases channel with
    | diag =>
      have hout : bytesOn .out (⟨.diag, text⟩ :: es) = bytesOn .out es :=
        bytesOn_cons_of_ne (by simp)
      have hdiag := bytesOn_cons_self ⟨.diag, text⟩ es
      simp only at hdiag
      rw [hout, hdiag, Sink.write_append, printAll, print]
      simp only
      rcases p.diag.write (Emission.bytes ⟨.diag, text⟩) with ⟨diag, fault⟩
      cases fault with
      | some fault => rfl
      | none => exact ih hrest _
    | out =>
      have hall : ∀ e ∈ (⟨.out, text⟩ :: es : List Emission), e.channel = .out := by
        intro e he
        rcases List.mem_cons.1 he with rfl | he
        · rfl
        · exact hfirst e he rfl
      have hout := bytesOn_cons_self ⟨.out, text⟩ es
      simp only at hout
      rw [bytesOn_diag_of_out hall, hout, Sink.write_nil, Sink.write_append, printAll, print]
      simp only
      rcases p.out.write (Emission.bytes ⟨.out, text⟩) with ⟨out, fault⟩
      cases fault with
      | some fault => rfl
      | none =>
        have hdiag := bytesOn_diag_of_out fun f hf => hall f (List.mem_cons_of_mem _ hf)
        simp only [ih hrest, hdiag, Sink.write_nil]

theorem printAll_of_diag_none (h : DiagFirst es)
    (hdiag : (p.diag.write (bytesOn .diag es)).2 = none) :
    p.printAll es =
      ({ out := (p.out.write (bytesOn .out es)).1, diag := (p.diag.write (bytesOn .diag es)).1 },
        (p.out.write (bytesOn .out es)).2) := by
  rw [printAll_eq h]
  rcases hw : p.diag.write (bytesOn .diag es) with ⟨diag, found⟩
  rw [hw] at hdiag
  cases hdiag
  rfl

theorem eq_full_of_print {fault : WriteFault} (h : (p.print e).2 = some fault) : fault = .full := by
  obtain ⟨channel, text⟩ := e
  cases channel <;>
  · simp only [print, Sink.write] at h
    split at h
    · cases h
    · cases h
      rfl

theorem eq_full_of_printAll {fault : WriteFault} (h : (p.printAll es).2 = some fault) :
    fault = .full := by
  induction es generalizing p with
  | nil => cases h
  | cons e es ih =>
    rw [printAll] at h
    rcases hp : p.print e with ⟨q, found⟩
    rw [hp] at h
    cases found with
    | some fault =>
      cases h
      exact eq_full_of_print (congrArg Prod.snd hp)
    | none => exact ih h

/-- Ports that differ at most in what they have received. -/
structure SameLimits (p q : Ports) : Prop where
  out_capacity : p.out.capacity = q.out.capacity
  diag_capacity : p.diag.capacity = q.diag.capacity
  out_failsFlush : p.out.failsFlush = q.out.failsFlush
  diag_failsFlush : p.diag.failsFlush = q.diag.failsFlush

/-- Ports that take everything and can always be flushed. -/
abbrev Reliable (p : Ports) : Prop :=
  p.SameLimits {}

theorem SameLimits.refl (p : Ports) : p.SameLimits p :=
  ⟨rfl, rfl, rfl, rfl⟩

theorem SameLimits.trans {q r : Ports} (h : p.SameLimits q) (h' : q.SameLimits r) :
    p.SameLimits r :=
  ⟨h.out_capacity.trans h'.out_capacity, h.diag_capacity.trans h'.diag_capacity,
    h.out_failsFlush.trans h'.out_failsFlush, h.diag_failsFlush.trans h'.diag_failsFlush⟩

theorem SameLimits.flush_eq {q : Ports} (h : p.SameLimits q) : p.flush = q.flush := by
  simp only [flush, Sink.flush?, h.out_failsFlush, h.diag_failsFlush]

theorem eq_flush_of_flush? (p : Ports) : p.flush? = none ∨ p.flush? = some .flush := by
  simp only [flush?, flush, Sink.flush?]
  cases p.out.failsFlush <;> cases p.diag.failsFlush <;> simp

theorem sameLimits_print (p : Ports) (e : Emission) : (p.print e).1.SameLimits p := by
  obtain ⟨channel, text⟩ := e
  cases channel <;> exact ⟨rfl, rfl, rfl, rfl⟩

theorem sameLimits_printAll (p : Ports) (es : List Emission) :
    (p.printAll es).1.SameLimits p := by
  induction es generalizing p with
  | nil => exact .refl p
  | cons e es ih =>
    have hprint := sameLimits_print p e
    rw [printAll]
    rcases hp : p.print e with ⟨q, fault⟩
    rw [hp] at hprint
    cases fault with
    | some fault => exact hprint
    | none => exact (ih q).trans hprint

theorem Reliable.printed (hu : u.Reliable) (es : List Emission) : (u.printAll es).1.Reliable :=
  (u.sameLimits_printAll es).trans hu

theorem Reliable.printAll (hu : u.Reliable) (h : DiagFirst es) :
    (u.printAll es).2 = none ∧
      (u.printAll es).1.out.bytes = u.out.bytes ++ bytesOn .out es ∧
      (u.printAll es).1.diag.bytes = u.diag.bytes ++ bytesOn .diag es := by
  obtain ⟨hdiag, hdiagBytes⟩ := Sink.write_of_capacity_none hu.diag_capacity (bytesOn .diag es)
  obtain ⟨hout, houtBytes⟩ := Sink.write_of_capacity_none hu.out_capacity (bytesOn .out es)
  rw [printAll_of_diag_none h hdiag]
  exact ⟨hout, houtBytes, hdiagBytes⟩

/-- The limits leave room for what other ports have received. -/
def Admits (limits content : Ports) : Prop :=
  Fits limits.out.capacity content.out.bytes ∧ Fits limits.diag.capacity content.diag.bytes

/-- Ports under the limits have received exactly what `u` has. -/
structure Tracks (limits p u : Ports) : Prop where
  sameLimits : p.SameLimits limits
  admits : limits.Admits u
  out : p.out.bytes = u.out.bytes
  diag : p.diag.bytes = u.diag.bytes

/-- What ports under the limits have received when a batch overflows that takes reliable ports
from `before` to `after`. -/
structure Clipped (limits before after p : Ports) : Prop where
  diag_full : ¬ Fits limits.diag.capacity after.diag.bytes →
    p.out.bytes = before.out.bytes ∧ p.diag.bytes = clip limits.diag.capacity after.diag.bytes
  out_full : Fits limits.diag.capacity after.diag.bytes →
    p.out.bytes = clip limits.out.capacity after.out.bytes ∧ p.diag.bytes = after.diag.bytes

variable {limits : Ports}

theorem Tracks.diag_write (h : Tracks limits p u) (bs : Bytes) :
    (p.diag.write bs).2 =
        (if Fits limits.diag.capacity (u.diag.bytes ++ bs) then none else some .full) ∧
      (p.diag.write bs).1.bytes = clip limits.diag.capacity (u.diag.bytes ++ bs) := by
  rw [← h.diag, ← h.sameLimits.diag_capacity]
  have hfits : Fits p.diag.capacity p.diag.bytes := by
    rw [h.diag, h.sameLimits.diag_capacity]
    exact h.admits.2
  exact ⟨Sink.write_fault hfits bs, Sink.bytes_write_eq_clip hfits bs⟩

theorem Tracks.out_write (h : Tracks limits p u) (bs : Bytes) :
    (p.out.write bs).2 =
        (if Fits limits.out.capacity (u.out.bytes ++ bs) then none else some .full) ∧
      (p.out.write bs).1.bytes = clip limits.out.capacity (u.out.bytes ++ bs) := by
  rw [← h.out, ← h.sameLimits.out_capacity]
  have hfits : Fits p.out.capacity p.out.bytes := by
    rw [h.out, h.sameLimits.out_capacity]
    exact h.admits.1
  exact ⟨Sink.write_fault hfits bs, Sink.bytes_write_eq_clip hfits bs⟩

theorem Tracks.printAll (h : Tracks limits p u) (hu : u.Reliable) (hd : DiagFirst es)
    (hadmits : limits.Admits (u.printAll es).1) :
    (p.printAll es).2 = none ∧ Tracks limits (p.printAll es).1 (u.printAll es).1 := by
  obtain ⟨-, hout, hdiag⟩ := hu.printAll hd
  have hlimits := (sameLimits_printAll p es).trans h.sameLimits
  obtain ⟨hdiagFault, hdiagBytes⟩ := h.diag_write (bytesOn .diag es)
  obtain ⟨houtFault, houtBytes⟩ := h.out_write (bytesOn .out es)
  rw [← hdiag] at hdiagFault hdiagBytes
  rw [← hout] at houtFault houtBytes
  rw [if_pos hadmits.2] at hdiagFault
  rw [if_pos hadmits.1] at houtFault
  rw [hadmits.2.clip_eq] at hdiagBytes
  rw [hadmits.1.clip_eq] at houtBytes
  rw [printAll_of_diag_none hd hdiagFault, houtFault] at hlimits ⊢
  exact ⟨rfl, hlimits, hadmits, houtBytes, hdiagBytes⟩

end Ports

end Tabletop
