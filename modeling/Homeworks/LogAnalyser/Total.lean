import Homeworks.LogAnalyser.Buffer
import Homeworks.LogAnalyser.Search
import Mathlib.Algebra.BigOperators.Fin

/-!
# The total of the log analyser

The workers search the lines that they are handed, and one of them adds up the numbers of matches
when all have finished.  The total is the number of occurrences of the term in the lines of the
file exactly when no line is read past its end, no occurrence is cut and the total is an `int`.
-/

open Relation CString

namespace LogAnalyser

variable {n : ℕ} [NeZero n] {W : Type*} [DecidableEq W]

namespace State

/-- The manager puts these lines into the buffer, one after another, and then calls
`buffer_set_eof`. -/
structure Follows {α : Type*} (lines : List α) (s : State n α W) : Prop where
  front : s.put <+: lines
  next : ∀ line, s.manager = .waiting line ∨ s.manager = .woken line → s.put ++ [line] <+: lines
  finished : s.manager = .finished → s.put = lines

/-- A run of the analyser on a file without `SIGINT`. -/
def Run (file : List Char) : State n (List Char) W → State n (List Char) W → Prop :=
  ReflTransGen fun s s' => Step s s' ∧ Follows (linesRead file) s'

/-- `args->matches` of a worker. -/
def matchesOf (s : State n (List Char) W) (term : List Char) (w : W) : Option ℕ :=
  matchesIn term ((s.handed.filter fun line => line.1 = w).map Prod.snd)

/-- `total_matches`. -/
def totalMatches {workerNum : ℕ} (s : State n (List Char) (Fin workerNum)) (term : List Char) :
    Option ℕ :=
  (List.finRange workerNum).foldlM
    (fun total w => do
      let localMatches ← s.matchesOf term w
      addInt total localMatches) 0

end State

variable {file term : List Char}

/-- Every line is counted by the worker it has been handed to. -/
theorem sum_handed [Fintype W] (f : List Char → ℕ) (handed : List (W × List Char)) :
  ∑ w, (((handed.filter fun line => line.1 = w).map Prod.snd).map f).sum
    = ((handed.map Prod.snd).map f).sum
  := by
  induction handed with
  | nil => simp
  | cons line handed ih =>
      rw [List.map_cons, List.map_cons, List.sum_cons, ← ih,
        ← Finset.sum_ite_eq_of_mem Finset.univ line.1 (fun _ => f line.2) (Finset.mem_univ _),
        ← Finset.sum_add_distrib]
      refine Finset.sum_congr rfl fun w _ => ?_
      by_cases hw : line.1 = w
      · simp [hw]
      · simp [hw]

variable {workerNum : ℕ} {s : State n (List Char) (Fin workerNum)}

omit [NeZero n] in
theorem totalMatches_eq (hterm : term ≠ []) :
  s.totalMatches term = addInt 0 ((s.handed.map Prod.snd).map (occurrences term)).sum
  := by
  have hmatches : ∀ total < 2 ^ 31, ∀ w, (s.matchesOf term w >>= addInt total)
      = addInt total
        (((s.handed.filter fun line => line.1 = w).map Prod.snd).map (occurrences term)).sum := by
    intro total _ w
    rw [State.matchesOf, matchesIn_eq hterm]
    exact addInt_zero_bind total _
  rw [← sum_handed, Fin.sum_univ_def]
  exact foldlM_addInt hmatches _ (by decide)

omit [NeZero n] in
theorem totalMatches_eq_zero (h : s.handed = []) :
  s.totalMatches term = some 0
  := by
  have hzero : ∀ w, s.matchesOf term w = some 0 := by
    intro w
    rw [State.matchesOf, h]
    rfl
  have hmatches : ∀ total < 2 ^ 31, ∀ w, (s.matchesOf term w >>= addInt total)
      = addInt total 0 := by
    intro total _ w
    rw [hzero]
    rfl
  rw [State.totalMatches]
  refine (foldlM_addInt hmatches _ (by decide)).trans ?_
  rw [List.sum_map_zero]
  rfl

omit [NeZero n] in
/-- With an empty term there is no total as soon as a line has been handed out. -/
theorem totalMatches_nil {w : Fin workerNum} {line : List Char} (h : (w, line) ∈ s.handed) :
  s.totalMatches [] = none
  := by
  have hmem : line ∈ (s.handed.filter fun line => line.1 = w).map Prod.snd :=
    List.mem_map.mpr ⟨(w, line), List.mem_filter.mpr ⟨h, decide_eq_true rfl⟩, rfl⟩
  refine foldlM_eq_none (fun total => ?_) (List.mem_finRange w) 0
  rw [State.matchesOf, matchesIn_nil hmem]
  rfl

theorem State.Run.reachable {memory : Fin n → List Char} [Fintype W]
    {s : State n (List Char) W} (h : Run file (initial memory) s) :
  ReflTransGen Step (initial memory) s
  := ReflTransGen.mono (fun _ _ => And.left) _ _ h

/-- When a worker has finished, the lines of the file have been handed out. -/
theorem State.Run.handed_eq {memory : Fin n → List Char} [Fintype W]
    {s : State n (List Char) W} (h : Run file (initial memory) s) {w : W}
    (hw : s.workers w = .finished) :
  s.handed.map Prod.snd = linesRead file
  := by
  have hs := sound_of_reachable h.reachable
  obtain ⟨heof, hsize⟩ := hs.finished w hw
  have hfinished := hs.eof.mp heof
  have hput : s.put = s.handed.map Prod.snd := by
    rw [hs.order, Buffer.contents, hsize]
    exact List.append_nil _
  rw [← hput]
  rcases ReflTransGen.cases_tail h with heq | ⟨_, _, _, hfollows⟩
  · rw [heq] at hfinished
    cases hfinished
  · exact hfollows.finished hfinished

theorem State.Run.totalMatches_nil [NeZero workerNum] {memory : Fin n → List Char}
    (h : Run file (initial memory) s) (hfinished : ∀ w, s.workers w = .finished)
    (hfile : file ≠ []) :
  s.totalMatches [] = none
  := by
  have hhanded := h.handed_eq (hfinished 0)
  obtain ⟨⟨w, line⟩, hline⟩ : ∃ line, line ∈ s.handed := by
    apply List.exists_mem_of_ne_nil
    intro hnone
    rw [hnone, linesRead_of_ne_nil hfile] at hhanded
    cases hhanded
  exact LogAnalyser.totalMatches_nil hline

/-- The total is the number of occurrences in the lines of the file, and no line is read past its
end, if and only if the term is not empty or the file is, all lines are intact, and the total
is an `int`. -/
theorem totalMatches_iff [NeZero workerNum] {memory : Fin n → List Char} (hnul : '\x00' ∉ term)
    (h : State.Run file (.initial memory) s) (hfinished : ∀ w, s.workers w = .finished) :
  s.totalMatches term = some (occurrencesIn term file)
    ↔ (term ≠ [] ∨ file = []) ∧ (∀ line ∈ lines file, Intact term line)
      ∧ occurrencesIn term file < 2 ^ 31
  := by
  have hhanded := h.handed_eq (hfinished 0)
  rcases eq_or_ne term [] with rfl | hterm
  · rcases eq_or_ne file [] with rfl | hfile
    · rw [linesRead_nil] at hhanded
      rw [totalMatches_eq_zero (List.map_eq_nil_iff.mp hhanded)]
      exact iff_of_true rfl ⟨.inr rfl, by simp [lines_nil], by decide⟩
    · rw [h.totalMatches_nil hfinished hfile]
      exact iff_of_false (by simp) fun hcond => hcond.1.elim (fun hne => hne rfl) hfile
  · rw [totalMatches_eq hterm, hhanded, ← sum_linesRead_eq_iff hterm hnul, addInt, Nat.zero_add,
      and_iff_right (Or.inl hterm)]
    split
    next hlt =>
      rw [Option.some_inj]
      exact ⟨fun heq => ⟨heq, heq ▸ hlt⟩, fun hcond => hcond.1⟩
    next hge => exact iff_of_false (by simp) fun hcond => hge (hcond.1 ▸ hcond.2)

/-- A run over a file of one line, with one worker and a buffer of capacity 1. -/
theorem exists_run {line : List Char} (h : linesRead file = [line]) :
  ∃ s : State 1 (List Char) (Fin 1),
    State.Run file (.initial fun _ => []) s ∧ ∀ w, s.workers w = .finished
  := by
  have hput := State.Step.put (s := State.initial fun _ : Fin 1 => [])
    (.inl rfl : Manager.Puts _ line)
    (fun h => nomatch h.1) rfl (.none fun _ : Fin 1 => nofun)
  have hrun := ReflTransGen.single (r := fun s s' => State.Step s s' ∧ s'.Follows (linesRead file))
    ⟨hput, ⟨h ▸ List.prefix_rfl, nofun, nofun⟩⟩
  have hget := hrun.tail ⟨.get (w := 0) (.inl rfl) Nat.one_ne_zero,
    ⟨h ▸ List.prefix_rfl, nofun, nofun⟩⟩
  have heof := hget.tail ⟨.setEof rfl, ⟨h ▸ List.prefix_rfl, nofun, fun _ => h.symm⟩⟩
  have hnull := heof.tail ⟨.getNull (w := 0) (.inl rfl) rfl rfl,
    ⟨h ▸ List.prefix_rfl, nofun, fun _ => h.symm⟩⟩
  exact ⟨_, hnull, fun w => Subsingleton.elim 0 w ▸ rfl⟩

/-- Both occurrences of `aa` in `aaa` are counted. -/
theorem totalMatches_iff_overlapping :
  ∃ s : State 1 (List Char) (Fin 1),
    State.Run "aaa".toList (.initial fun _ => []) s ∧ s.totalMatches "aa".toList = some 2
  := by
  have hrest : "aaa".toList.drop (chunkLength (maxLineLength - 1) "aaa".toList) = [] := by decide
  have hread : linesRead "aaa".toList = ["aaa".toList] := by
    rw [linesRead_of_ne_nil (by decide), hrest, linesRead_nil]
    decide
  have hintact : ∀ line ∈ lines "aaa".toList, Intact "aa".toList line := by
    intro line hline
    rw [List.mem_singleton.mp hline]
    exact intact_of_length_le (by decide) (by decide) (by decide)
  obtain ⟨s, hrun, hfinished⟩ := exists_run hread
  exact ⟨s, hrun, (totalMatches_iff (by decide) hrun hfinished).mpr
    ⟨.inl (by decide), hintact, by decide⟩⟩

/-- With an empty term the line is read past its end. -/
theorem totalMatches_empty_term :
  ∃ s : State 1 (List Char) (Fin 1),
    State.Run ['\n'] (.initial fun _ => []) s ∧ (∀ w, s.workers w = .finished)
      ∧ s.totalMatches [] ≠ some (occurrencesIn [] ['\n'])
  := by
  have hrest : ['\n'].drop (chunkLength (maxLineLength - 1) ['\n']) = [] := by decide
  have hread : linesRead ['\n'] = [[]] := by
    rw [linesRead_of_ne_nil (by decide), hrest, linesRead_nil]
    decide
  obtain ⟨s, hrun, hfinished⟩ := exists_run hread
  refine ⟨s, hrun, hfinished, ?_⟩
  rw [hrun.totalMatches_nil hfinished (by decide)]
  exact nofun

end LogAnalyser
