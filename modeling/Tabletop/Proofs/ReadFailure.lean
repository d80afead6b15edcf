import Tabletop.Proofs.Encoding
import Tabletop.Proofs.Session

/-!
Where a script cannot be read, and that it does before that what its readable lines do.
-/

namespace Tabletop

namespace Source

variable {bs : Bytes} {fault : ReadFault}

theorem lines_of_isText (h : bs.IsText) :
    ∀ line ∈ (⟨bs, none⟩ : Source).lines, ∃ text, line = .ok text := by
  induction bs using Bytes.lineInduction with
  | unfinished l hl =>
    rw [lines_unfinished hl]
    simp only
    split
    · exact fun _ hline => (nomatch hline)
    · intro line hline
      rw [List.mem_singleton.1 hline]
      exact decode_of_isText h
  | line l r hl ih =>
    obtain ⟨hltext, hr⟩ := Bytes.isText_line_iff.1 h
    rw [lines_line hl]
    intro line hline
    rcases List.mem_cons.1 hline with rfl | hline
    · exact decode_of_isText (Bytes.isText_dropReturn_iff.2 hltext)
    · exact ih hr line hline

/-- The first line that cannot be read has as many lines before it as there are line feeds in the
longest beginning that is valid UTF-8. -/
theorem lines_of_not_isText (h : ¬ bs.IsText) :
    (∀ line ∈ (⟨bs, none⟩ : Source).lines.take (bs.longestText.count 0x0A),
        ∃ text, line = .ok text) ∧
      (⟨bs, none⟩ : Source).lines[bs.longestText.count 0x0A]? = some (.error .notUtf8) := by
  induction bs using Bytes.lineInduction with
  | unfinished l hl =>
    have hno : 0x0A ∉ l.longestText := fun hmem => hl ((Bytes.longestText_isPrefix l).subset hmem)
    have hne : ¬ l.isEmpty = true := by
      intro hempty
      rw [List.isEmpty_iff.1 hempty] at h
      exact h .nil
    rw [List.count_eq_zero_of_not_mem hno, lines_unfinished hl]
    simp only [if_neg hne, decode_of_not_isText h]
    exact ⟨fun _ hline => (nomatch hline), rfl⟩
  | line l r hl ih =>
    rw [lines_line hl]
    by_cases htext : l.IsText
    · have hr : ¬ r.IsText := fun hr => h (Bytes.isText_line_iff.2 ⟨htext, hr⟩)
      obtain ⟨hok, herror⟩ := ih hr
      have hcount : (Bytes.longestText (l ++ 0x0A :: r)).count 0x0A =
          r.longestText.count 0x0A + 1 := by
        rw [Bytes.longestText_line htext, List.count_append, List.count_eq_zero_of_not_mem hl,
          List.count_cons_self, Nat.zero_add]
      rw [hcount, List.take_succ_cons, List.getElem?_cons_succ]
      refine ⟨?_, herror⟩
      intro line hline
      rcases List.mem_cons.1 hline with rfl | hline
      · exact decode_of_isText (Bytes.isText_dropReturn_iff.2 htext)
      · exact hok line hline
    · have hno := Bytes.newline_not_mem_longestText htext hl r
      rw [List.count_eq_zero_of_not_mem hno, List.take_zero, List.getElem?_cons_zero,
        decode_of_not_isText (mt Bytes.isText_dropReturn_iff.1 htext)]
      exact ⟨fun _ hline => (nomatch hline), rfl⟩

/-- The first complete line that is not valid UTF-8 cannot be read; if there is none, a source that
breaks does so after its complete lines. -/
theorem lines_of_broken (bs : Bytes) (fault : ReadFault) :
    (∀ line ∈ (⟨bs, some fault⟩ : Source).lines.take
        (bs.completeLines.findIdx fun line => ¬ line.IsText), ∃ text, line = .ok text) ∧
      (⟨bs, some fault⟩ : Source).lines[bs.completeLines.findIdx fun line => ¬ line.IsText]? =
        some (.error (if ∀ line ∈ bs.completeLines, line.IsText then fault else .notUtf8)) := by
  rw [lines_of_fault]
  generalize bs.completeLines = complete
  induction complete with
  | nil => exact ⟨fun _ hline => (nomatch hline), rfl⟩
  | cons l rest ih =>
    obtain ⟨hok, herror⟩ := ih
    by_cases htext : l.IsText
    · have hidx : (l :: rest).findIdx (fun line => ¬ line.IsText) =
          rest.findIdx (fun line => ¬ line.IsText) + 1 := by
        rw [List.findIdx_cons]
        simp only [htext, not_true_eq_false, decide_false, cond_false]
      rw [hidx, List.map_cons, List.cons_append, List.take_succ_cons, List.getElem?_cons_succ]
      simp only [List.forall_mem_cons, htext, true_and]
      exact ⟨⟨decode_of_isText (Bytes.isText_dropReturn_iff.2 htext), hok⟩, herror⟩
    · have hidx : (l :: rest).findIdx (fun line => ¬ line.IsText) = 0 := by
        rw [List.findIdx_cons]
        simp only [htext, not_false_eq_true, decide_true, cond_true]
      rw [hidx, List.map_cons, List.cons_append, List.take_zero, List.getElem?_cons_zero,
        decode_of_not_isText (mt Bytes.isText_dropReturn_iff.1 htext)]
      simp only [List.forall_mem_cons, htext, false_and, if_false, and_true]
      exact fun _ hline => (nomatch hline)

end Source

namespace Session

variable {s : Session} {source : Source} {k : Nat} {fault : ReadFault}

/-- A script that fails reading line `n`, having done what its first `n - 1` lines do. -/
structure FailsReading (s : Session) (source : Source) (n : Nat) (fault : ReadFault) : Prop where
  failure : (s.run source {}).failure? = some (.read n fault)
  succeeds : (s.run (source.firstLines (n - 1)) {}).failure? = none
  state : (s.run source {}).state = (s.run (source.firstLines (n - 1)) {}).state
  ports : (s.run source {}).ports = (s.run (source.firstLines (n - 1)) {}).ports

theorem run_of_reliable {u : Ports} (hu : u.Reliable) (s : Session) (source : Source) :
    s.run source u =
      feed answer 1 source.lines (s, {}) (u.printAll (if s.debug then debugHeader else [])).1 := by
  rw [run_eq_announce, announce_of_reliable hu s.out_of_mem_header]

theorem run_of_lines_ok (hok : ∀ line ∈ source.lines, ∃ text, line = .ok text) :
    (s.run source {}).failure? = none := by
  have hu : Ports.Reliable {} := .refl _
  rw [run_of_reliable hu]
  exact feed_failure_of_ok printsDiagFirst_answer answer_stop (hu.printed _) hok

theorem failsReading_of_lines (hok : ∀ line ∈ source.lines.take k, ∃ text, line = .ok text)
    (herror : source.lines[k]? = some (.error fault)) : s.FailsReading source (1 + k) fault := by
  obtain ⟨hk, hget⟩ := List.getElem?_eq_some_iff.1 herror
  have hlength : (source.lines.take k).length = k :=
    List.length_take_of_le (Nat.le_of_lt hk)
  have hsplit : source.lines = source.lines.take k ++ .error fault :: source.lines.drop (k + 1) := by
    rw [← hget, ← List.drop_eq_getElem_cons hk, List.take_append_drop]
  have hfirst : (source.firstLines k).lines = source.lines.take k :=
    Source.lines_firstLines hok (Nat.le_refl k)
  have hu : Ports.Reliable {} := .refl _
  have hrun : s.run source {} =
      ⟨(s.run (source.firstLines k) {}).state, (s.run (source.firstLines k) {}).ports,
        some (.read (1 + k) fault), []⟩ := by
    rw [run_of_reliable hu, run_of_reliable hu, hfirst, hsplit,
      feed_append_of_ok printsDiagFirst_answer answer_stop (hu.printed _) hok, hlength, ← hsplit]
    rfl
  have hsub : 1 + k - 1 = k := by omega
  constructor
  · rw [hrun]
  · rw [hsub]
    apply run_of_lines_ok
    rw [hfirst]
    exact hok
  · rw [hsub, hrun]
  · rw [hsub, hrun]

/-- A script that simply ends can be read unless it is not valid UTF-8, and then as far as its
longest beginning that is has complete lines. A script that breaks fails all the same. -/
theorem run_fails_reading (s : Session) (bs : Bytes) :
    ((∃ n fault, (s.run ⟨bs, none⟩ {}).failure? = some (.read n fault)) ↔ ¬ bs.IsText) ∧
      (¬ bs.IsText → s.FailsReading ⟨bs, none⟩ (1 + bs.longestText.count 0x0A) .notUtf8) ∧
      ∀ fault, s.FailsReading ⟨bs, some fault⟩
        (1 + bs.completeLines.findIdx fun line => ¬ line.IsText)
        (if ∀ line ∈ bs.completeLines, line.IsText then fault else .notUtf8) := by
  have hfails (h : ¬ bs.IsText) :
      s.FailsReading ⟨bs, none⟩ (1 + bs.longestText.count 0x0A) .notUtf8 := by
    obtain ⟨hok, herror⟩ := Source.lines_of_not_isText h
    exact failsReading_of_lines hok herror
  refine ⟨⟨?_, ?_⟩, hfails, ?_⟩
  · rintro ⟨n, fault, hfailure⟩ h
    rw [run_of_lines_ok (Source.lines_of_isText h)] at hfailure
    cases hfailure
  · intro h
    exact ⟨_, _, (hfails h).failure⟩
  · intro fault
    obtain ⟨hok, herror⟩ := Source.lines_of_broken bs fault
    exact failsReading_of_lines hok herror

/-- A character that is cut short by a line feed makes its own line unreadable. -/
theorem run_fails_reading_cut_character :
    let bs := Bytes.ofText "REPORT\n" ++ [0xC3, 0x0A]
    ¬ bs.IsText ∧ ({ table := .standard } : Session).FailsReading ⟨bs, none⟩ 2 .notUtf8 := by
  intro bs
  have hbs : ¬ bs.IsText := by decide
  have hlongest : bs.longestText = Bytes.ofText "REPORT\n" := by decide
  have h := (run_fails_reading { table := .standard } bs).2.1 hbs
  rw [hlongest] at h
  exact ⟨hbs, h⟩

end Session

end Tabletop
