import Homeworks.Sorting.Ranges
import Homeworks.TaskManager.Main
import Mathlib.Data.List.Nodup

/-!
# The order of the tasks

Every valid task is printed once, in the order of the priorities; tasks of the same priority are
printed in the order in which they were created.
-/

namespace TaskManager

open Java (Text)

/-! ### Comparing tasks -/

theorem notAfter_iff {x y : MyTask} :
  MinHeap.NotAfter MyTask.compareTo x y
    ↔ x.user.priority < y.user.priority ∨ x.user.priority = y.user.priority ∧ x.id ≤ y.id
  := by
  rw [MinHeap.NotAfter, MyTask.compareTo]
  split
  · omega
  · split
    · omega
    · split
      · omega
      · split <;> omega

theorem comparison_compareTo :
  MinHeap.Comparison MyTask.compareTo
  where
  asymm x y hx := by
    apply notAfter_iff.mpr
    have hy : ¬ MinHeap.NotAfter MyTask.compareTo y x := fun hy => hy hx
    rw [notAfter_iff] at hy
    omega
  trans x y z hxy hyz := by
    have hxy' := notAfter_iff.mp hxy
    have hyz' := notAfter_iff.mp hyz
    apply notAfter_iff.mpr
    omega

/-! ### Users -/

/-- The priorities of the users that are accepted. -/
def priorities : Except Text Text → List Int
  | .error _ => []
  | .ok configFile =>
      (Java.lines configFile).filterMap fun line =>
        (Java.parseInt (Java.trim line)).filter fun priority => 0 ≤ priority

/-- The lines that are printed as output. -/
def printed (lines : List Line) : List Text :=
  lines.filterMap fun
    | .out s => some s
    | .err _ => none

/-- The users are numbered in the order of their lines. -/
def usersOf (prios : List Int) : List MyUser := prios.zipIdx.map fun e => ⟨e.2, e.1⟩

theorem addUsers_spec (users : List MyUser) (lines : List Text) :
  (MyTaskManager.addUsers users lines).1
      = users ++ ((lines.filterMap fun line => (Java.parseInt (Java.trim line)).filter
          fun priority => 0 ≤ priority).zipIdx users.length).map (fun e => ⟨e.2, e.1⟩)
    ∧ printed (MyTaskManager.addUsers users lines).2 = []
  := by
  induction lines generalizing users with
  | nil => simp [MyTaskManager.addUsers, printed]
  | cons line lines ih =>
      rw [List.filterMap_cons]
      unfold MyTaskManager.addUsers
      dsimp only
      by_cases hempty : (Java.trim line).isEmpty = true
      · rw [if_pos hempty, List.isEmpty_iff.mp hempty, Java.parseInt_nil, Option.filter_none]
        exact ih users
      · rw [if_neg hempty]
        cases hparse : Java.parseInt (Java.trim line) with
        | none => exact ih users
        | some priority =>
            by_cases hneg : priority < 0
            · have hfilter : (some priority).filter (fun p => decide (0 ≤ p)) = none := by
                rw [Option.filter_some_neg]
                simpa using hneg
              dsimp only
              rw [if_pos hneg, hfilter]
              exact ih users
            · have hfilter : (some priority).filter (fun p => decide (0 ≤ p)) = some priority := by
                rw [Option.filter_some_pos]
                simpa using hneg
              obtain ⟨husers, hprinted⟩ := ih (users ++ [⟨users.length, priority⟩])
              dsimp only
              rw [if_neg hneg, hfilter, husers, List.length_append, List.append_assoc]
              exact ⟨rfl, hprinted⟩

/-- The users are those of the lines that are accepted; no output is printed. -/
theorem addUser_spec (configFile : Except Text Text) :
  (MyTaskManager.addUser configFile).1 = usersOf (priorities configFile)
    ∧ printed (MyTaskManager.addUser configFile).2 = []
  := by
  cases configFile with
  | error message => exact ⟨rfl, rfl⟩
  | ok configFile => exact addUsers_spec [] _

/-! ### Lines of input -/

theorem toNat_lt_count {count : Nat} {u : Int} (h : 0 ≤ u ∧ u < count) :
  u.toNat < count
  := (Int.toNat_lt h.1).mpr h.2

/-- The user that a line asks for, if there is one. -/
def userId (count : Nat) (line : Text) : Option (Fin count) :=
  (Java.parseInt (Java.trim line)).bind fun u =>
    if h : 0 ≤ u ∧ u < count then some ⟨u.toNat, toNat_lt_count h⟩ else none

/-- The users that some lines ask for, with the numbers of their tasks from a number on. -/
def submitted (count taskId : Nat) (lines : List Text) : List (Fin count × Nat) :=
  (lines.filterMap (userId count)).zipIdx taskId

variable {prios : List Int} {tasks : MinHeap MyTask} {taskId : Nat} {line : Text}
  {before : List Text}

/-- The task of a user. -/
def task (prios : List Int) (e : Fin prios.length × Nat) : MyTask := ⟨⟨e.1, prios[e.1]⟩, e.2⟩

theorem task_injective :
  Function.Injective (task prios)
  := by
  rintro ⟨u, t⟩ ⟨u', t'⟩ h
  have hid : t = t' := congrArg MyTask.id h
  have huser : u.val = u'.val := congrArg (fun task => task.user.id) h
  rw [hid, Fin.ext huser]

/-- A user ID is accepted if there is a user. -/
theorem createTask_eq (u : Nat) :
  MyTaskManager.createTask ⟨tasks, usersOf prios⟩ taskId u
    = if h : u < prios.length then
        .ok ⟨tasks.add MyTask.compareTo (task prios (⟨u, h⟩, taskId)), usersOf prios⟩
      else
        .error ("Invalid user ID: ".toList ++ CString.decimal u)
  := by
  have hlength : (usersOf prios).length = prios.length := by
    rw [usersOf, List.length_map, List.length_zipIdx]
  rw [MyTaskManager.createTask]
  by_cases hlt : u < prios.length
  · have hlt' : u < (usersOf prios).length := by rwa [hlength]
    have huser : (usersOf prios)[u] = ⟨u, prios[u]⟩ := by
      simp [usersOf]
    rw [dif_neg (Nat.not_le_of_lt hlt'), dif_pos hlt]
    dsimp only
    rw [huser]
    rfl
  · have hge : u ≥ (usersOf prios).length := by
      rw [hlength]
      exact Nat.le_of_not_lt hlt
    rw [dif_pos hge, dif_neg hlt]

/-- A line creates a task, or at most prints an error. -/
theorem mainLoop_cons (hline : Java.trim line ≠ "execute".toList) (prios : List Int)
    (tasks : MinHeap MyTask) (taskId : Nat) (after : List Text) :
  userId prios.length line = none
      ∧ printed (mainLoop ⟨tasks, usersOf prios⟩ taskId (line :: after))
        = printed (mainLoop ⟨tasks, usersOf prios⟩ taskId after)
    ∨ ∃ u, userId prios.length line = some u
      ∧ mainLoop ⟨tasks, usersOf prios⟩ taskId (line :: after)
        = mainLoop ⟨tasks.add MyTask.compareTo (task prios (u, taskId)), usersOf prios⟩
          (taskId + 1) after
  := by
  rw [mainLoop, userId]
  by_cases hempty : (Java.trim line).isEmpty = true
  · left
    rw [if_pos hempty, List.isEmpty_iff.mp hempty, Java.parseInt_nil]
    exact ⟨rfl, rfl⟩
  · rw [if_neg hempty, if_neg hline]
    cases hparse : Java.parseInt (Java.trim line) with
    | none => exact .inl ⟨rfl, rfl⟩
    | some u =>
        dsimp only
        by_cases hneg : u < 0
        · left
          rw [if_pos hneg, Option.bind_some, dif_neg (by omega)]
          exact ⟨rfl, rfl⟩
        · rw [if_neg hneg, Option.bind_some, createTask_eq]
          by_cases hlt : u.toNat < prios.length
          · right
            rw [dif_pos hlt, dif_pos (by omega)]
            exact ⟨_, rfl, rfl⟩
          · left
            rw [dif_neg hlt, dif_neg (by omega)]
            exact ⟨rfl, rfl⟩

/-- The tasks that are executed are those of the lines before. -/
theorem mainLoop_execute (hbefore : ∀ l ∈ before, Java.trim l ≠ "execute".toList)
    (hline : Java.trim line = "execute".toList) (prios : List Int) (tasks : MinHeap MyTask)
    (hordered : tasks.Ordered MyTask.compareTo) (taskId : Nat) (after : List Text) :
  ∃ tasks' : MinHeap MyTask, tasks'.Ordered MyTask.compareTo
    ∧ tasks'.toList.Perm
      (tasks.toList ++ (submitted prios.length taskId before).map (task prios))
    ∧ printed (mainLoop ⟨tasks, usersOf prios⟩ taskId (before ++ line :: after))
      = (tasks'.drain MyTask.compareTo).map MyTask.toString
  := by
  induction before generalizing tasks taskId with
  | nil =>
      refine ⟨tasks, hordered, ?_, ?_⟩
      · rw [submitted, List.filterMap_nil, List.zipIdx_nil, List.map_nil, List.append_nil]
      · have hempty : ¬ (Java.trim line).isEmpty = true := by
          rw [hline]
          decide
        rw [List.nil_append, mainLoop, if_neg hempty, if_pos hline, MyTaskManager.execute, printed,
          List.filterMap_map]
        exact congrFun (List.filterMap_eq_map (f := MyTask.toString)) _
  | cons l before ih =>
      obtain ⟨hl, hbefore⟩ := List.forall_mem_cons.mp hbefore
      rw [List.cons_append]
      rcases mainLoop_cons hl prios tasks taskId (before ++ line :: after) with
        ⟨hnone, hloop⟩ | ⟨u, hsome, hloop⟩
      · rw [hloop, submitted, List.filterMap_cons_none hnone]
        exact ih hbefore tasks hordered taskId
      · obtain ⟨tasks', hordered', hperm, hprinted⟩ :=
          ih hbefore _ (MinHeap.add_ordered comparison_compareTo hordered) (taskId + 1)
        rw [hloop, submitted, List.filterMap_cons_some hsome, List.zipIdx_cons, List.map_cons]
        refine ⟨tasks', hordered', hperm.trans ?_, hprinted⟩
        exact (MinHeap.add_perm.append_right _).trans List.perm_middle.symm

/-- The text of a task. -/
def taskText (t u : Nat) : Text :=
  "Task ".toList ++ CString.decimal t ++ " User ".toList ++ CString.decimal u

/-- Up to the first command `execute`, every line with the ID of a user is a task.  Each is
printed once, in the order of the priorities of the users and of the numbers of the tasks.  The
indices of `poll` have no bound here; those of the type `int` are the same among at most `2 ^ 30`
tasks, by `MinHeap.pollInt_eq`. -/
theorem main_prints (configFile : Except Text Text) (stdin : Text) (before : List Text)
    (line : Text) (after : List Text) (hlines : Java.lines stdin = before ++ line :: after)
    (hbefore : ∀ l ∈ before, Java.trim l ≠ "execute".toList)
    (hline : Java.trim line = "execute".toList) :
  let prios := priorities configFile
  ∃ order : List (Fin prios.length × Nat), order.Perm (submitted prios.length 0 before)
    ∧ order.Pairwise (fun a b => prios[a.1] < prios[b.1] ∨ prios[a.1] = prios[b.1] ∧ a.2 < b.2)
    ∧ printed (main configFile stdin) = order.map fun e => taskText e.2 e.1
  := by
  intro prios
  obtain ⟨tasks, hordered, hperm, hprinted⟩ :=
    mainLoop_execute hbefore hline prios .new MinHeap.ordered_new 0 after
  obtain ⟨hdrain, hsorted⟩ := MinHeap.drain_spec comparison_compareTo tasks hordered
  obtain ⟨order, horder, heq⟩ := Sorting.exists_map_of_perm task_injective (hdrain.trans hperm)
  refine ⟨order, horder, ?_, ?_⟩
  · have hnodup : (order.map Prod.snd).Nodup := by
      rw [(horder.map Prod.snd).nodup_iff, submitted, List.zipIdx_map_snd]
      exact List.nodup_range'
    have hdistinct : order.Pairwise fun a b => a.2 ≠ b.2 := List.pairwise_map.mp hnodup
    rw [heq, List.pairwise_map] at hsorted
    apply (hsorted.and hdistinct).imp
    rintro a b ⟨hab, hne⟩
    rcases notAfter_iff.mp hab with hlt | ⟨hprio, hle⟩
    · exact .inl hlt
    · exact .inr ⟨hprio, Nat.lt_of_le_of_ne hle hne⟩
  · obtain ⟨husers, herrors⟩ := addUser_spec configFile
    rw [main, hlines, printed, List.filterMap_append]
    change printed (MyTaskManager.addUser configFile).2
      ++ printed (mainLoop ⟨.new, (MyTaskManager.addUser configFile).1⟩ 0 _) = _
    rw [herrors, husers, List.nil_append, hprinted, heq, List.map_map]
    rfl

theorem main_prints_two :
  let configFile : Except Text Text := .ok "2\n1\n".toList
  let prios := priorities configFile
  ∃ order : List (Fin prios.length × Nat),
    order.Perm (submitted prios.length 0 ["0".toList, " 1 ".toList])
      ∧ order.Pairwise (fun a b => prios[a.1] < prios[b.1] ∨ prios[a.1] = prios[b.1] ∧ a.2 < b.2)
      ∧ printed (main configFile "0\n 1 \nexecute\n".toList)
        = order.map fun e => taskText e.2 e.1
  := by
  have hline : ∀ s : Text, (s.all fun c => !Java.isSeparator c) = true →
      ∀ c ∈ s, Java.isSeparator c = false := by
    intro s hs c hc
    simpa using List.all_eq_true.mp hs c hc
  have hlines : Java.lines "0\n 1 \nexecute\n".toList
      = ["0".toList, " 1 ".toList] ++ "execute".toList :: [] := by
    change Java.lines ("0".toList ++ '\n' :: (" 1 ".toList ++ '\n' :: ("execute".toList
      ++ '\n' :: []))) = _
    rw [Java.lines_append, Java.lines_append, Java.lines_append, Java.lines_nil]
    · rfl
    · exact hline _ (by decide)
    · exact hline _ (by decide)
    · exact hline _ (by decide)
  exact main_prints _ _ _ _ _ hlines (by decide) (by decide)

end TaskManager
