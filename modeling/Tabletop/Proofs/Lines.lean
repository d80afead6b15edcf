import Tabletop.Stream.Source

/-!
Byte strings as lines: the first lines of a source are the source of the first lines.
-/

namespace Tabletop

variable {l r bs : Bytes} {k : Nat} {fault? : Option ReadFault}

namespace Bytes

/-- The first `k` lines with their line feeds; a last line may lack its own. -/
def firstLines : Nat → Bytes → Bytes
  | 0, _ => []
  | _ + 1, [] => []
  | k + 1, b :: bs => b :: firstLines (if b = 0x0A then k else k + 1) bs

/-- Bytes are lines followed by a last one without its line feed. -/
@[elab_as_elim]
theorem lineInduction {P : Bytes → Prop} (unfinished : ∀ l, 0x0A ∉ l → P l)
    (line : ∀ l r, 0x0A ∉ l → P r → P (l ++ 0x0A :: r)) (bs : Bytes) : P bs := by
  induction hn : bs.length using Nat.strongRecOn generalizing bs with
  | ind n ih =>
    by_cases hmem : 0x0A ∈ bs
    · obtain ⟨l, r, rfl, hl⟩ := List.eq_append_cons_of_mem hmem
      have hlt : r.length < n := by
        rw [← hn, List.length_append, List.length_cons]
        omega
      exact line l r hl (ih r.length hlt r rfl)
    · exact unfinished bs hmem

@[simp] theorem firstLines_zero (bs : Bytes) : firstLines 0 bs = [] := by
  cases bs <;> rfl

theorem firstLines_unfinished (h : 0x0A ∉ l) (k : Nat) : firstLines (k + 1) l = l := by
  induction l with
  | nil => rfl
  | cons b l ih =>
    obtain ⟨hb, hl⟩ := List.ne_and_not_mem_of_not_mem_cons h
    rw [firstLines, if_neg (Ne.symm hb), ih hl]

theorem firstLines_line (h : 0x0A ∉ l) (r : Bytes) (k : Nat) :
    firstLines (k + 1) (l ++ 0x0A :: r) = l ++ 0x0A :: firstLines k r := by
  induction l with
  | nil => rfl
  | cons b l ih =>
    obtain ⟨hb, hl⟩ := List.ne_and_not_mem_of_not_mem_cons h
    rw [List.cons_append, firstLines, if_neg (Ne.symm hb), ih hl, List.cons_append]

/-- The lines that end in a line feed, without it. -/
def completeLines (bs : Bytes) : List Bytes :=
  (bs.splitOn 0x0A).dropLast

/-- Bytes of which every line has its line feed. -/
def Ended (bs : Bytes) : Prop :=
  bs = [] ∨ bs.getLast? = some 0x0A

instance (bs : Bytes) : Decidable bs.Ended :=
  inferInstanceAs (Decidable (_ ∨ _))

theorem Ended.eq_nil (hl : l.Ended) (h : 0x0A ∉ l) : l = [] := by
  rcases hl with hl | hl
  · exact hl
  · exact (h (List.mem_of_getLast? hl)).elim

theorem ended_line_iff : (l ++ 0x0A :: r).Ended ↔ r.Ended := by
  have hlast : (l ++ 0x0A :: r).getLast? = some (r.getLast?.getD 0x0A) := by
    rw [List.getLast?_append, List.getLast?_cons]
    rfl
  rw [Ended, Ended, hlast]
  cases r with
  | nil => simp
  | cons b r => simp [List.getLast?_cons]

end Bytes

namespace Source

theorem lines_unfinished (h : 0x0A ∉ l) :
    (⟨l, fault?⟩ : Source).lines =
      match fault? with
      | some fault => [.error fault]
      | none => if l.isEmpty then [] else [decode l] := by
  simp only [lines, List.splitOn_eq_singleton h]
  rfl

theorem lines_line (h : 0x0A ∉ l) (r : Bytes) :
    (⟨l ++ 0x0A :: r, fault?⟩ : Source).lines =
      decode (dropReturn l) :: (⟨r, fault?⟩ : Source).lines := by
  have hne := List.splitOn_ne_nil 0x0A r
  simp only [lines, List.splitOn_append_cons_self_of_not_mem h, List.dropLast_cons_of_ne_nil hne,
    List.map_cons, List.cons_append, List.getLast?_cons_of_ne_nil hne]

/-- After whole lines the next line starts afresh. -/
theorem lines_append {a : Bytes} (ha : a.Ended) (b : Bytes) (fault? : Option ReadFault) :
    (⟨a ++ b, fault?⟩ : Source).lines =
      (⟨a, none⟩ : Source).lines ++ (⟨b, fault?⟩ : Source).lines := by
  induction a using Bytes.lineInduction with
  | unfinished l hl =>
    rw [ha.eq_nil hl]
    rfl
  | line l r hl ih =>
    rw [List.append_assoc, List.cons_append, lines_line hl, lines_line hl, List.cons_append,
      ih (Bytes.ended_line_iff.1 ha)]

theorem length_lines {a : Bytes} (ha : a.Ended) :
    (⟨a, none⟩ : Source).lines.length = a.count 0x0A := by
  induction a using Bytes.lineInduction with
  | unfinished l hl =>
    rw [ha.eq_nil hl]
    rfl
  | line l r hl ih =>
    rw [lines_line hl, List.length_cons, ih (Bytes.ended_line_iff.1 ha), List.count_append,
      List.count_eq_zero_of_not_mem hl, List.count_cons_self, Nat.zero_add]

/-- A source that ends after its first `k` lines. -/
def firstLines (k : Nat) (s : Source) : Source :=
  ⟨s.bytes.firstLines k, none⟩

theorem lines_firstLines_of_no_fault (bs : Bytes) (k : Nat) :
    (⟨bs.firstLines k, none⟩ : Source).lines = (⟨bs, none⟩ : Source).lines.take k := by
  induction bs using Bytes.lineInduction generalizing k with
  | unfinished l hl =>
    cases k with
    | zero => rw [Bytes.firstLines_zero, List.take_zero]; rfl
    | succ k =>
      rw [Bytes.firstLines_unfinished hl, lines_unfinished hl]
      simp only
      split
      · rfl
      · rw [List.take_succ_cons, List.take_nil]
  | line l r hl ih =>
    cases k with
    | zero => rw [Bytes.firstLines_zero, List.take_zero]; rfl
    | succ k =>
      rw [Bytes.firstLines_line hl, lines_line hl, lines_line hl, List.take_succ_cons, ih]

theorem lines_eq (s : Source) :
    s.lines =
      s.bytes.completeLines.map (fun line => decode (dropReturn line)) ++
        match s.fault? with
        | some fault => [.error fault]
        | none =>
          if ((s.bytes.splitOn 0x0A).getLast?.getD []).isEmpty then []
          else [decode ((s.bytes.splitOn 0x0A).getLast?.getD [])] :=
  rfl

theorem lines_of_fault (bs : Bytes) (fault : ReadFault) :
    (⟨bs, some fault⟩ : Source).lines =
      bs.completeLines.map (fun line => decode (dropReturn line)) ++ [.error fault] :=
  rfl

/-- As far as lines are complete it does not matter what comes after them. -/
theorem lines_firstLines_of_complete {s : Source} (hk : k ≤ s.bytes.completeLines.length) :
    (s.firstLines k).lines = s.lines.take k := by
  have hlen : k ≤ (s.bytes.completeLines.map fun line => decode (dropReturn line)).length := by
    rw [List.length_map]
    exact hk
  rw [firstLines, lines_firstLines_of_no_fault, lines_eq, lines_eq,
    List.take_append_of_le_length hlen, List.take_append_of_le_length hlen]

/-- The first lines of a source that can all be read are those of the source cut after them. -/
theorem lines_firstLines {s : Source} {j : Nat}
    (h : ∀ line ∈ s.lines.take k, ∃ text, line = .ok text) (hj : j ≤ k) :
    (s.firstLines j).lines = s.lines.take j := by
  obtain ⟨bs, fault?⟩ := s
  cases fault? with
  | none => exact lines_firstLines_of_no_fault bs j
  | some fault =>
    apply lines_firstLines_of_complete
    apply Nat.le_trans hj
    apply Nat.le_of_not_lt
    intro hlt
    have hmem : .error fault ∈ (⟨bs, some fault⟩ : Source).lines.take k := by
      rw [lines_of_fault, List.take_of_length_le]
      · exact List.mem_append_right _ List.mem_cons_self
      · rw [List.length_append, List.length_map]
        exact hlt
    obtain ⟨text, htext⟩ := h _ hmem
    cases htext

end Source

end Tabletop
