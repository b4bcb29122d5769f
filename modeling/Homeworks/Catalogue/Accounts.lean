import Homeworks.Catalogue.Loading

/-!
# Every line is accounted for

Loading goes wrong in three ways: the program ends at a line that is too long, of a type that it
does not know or with a number that cannot be converted; it takes numbers in arrays for granted; and
it does not see a last field that is empty.
-/

namespace Catalogue

open CString Occurrence

variable {Double : Type} {doubles : Doubles Double} {format : List FieldFormat}
  {s s' : Loading Double} {line : Line} {lines : List Line} {entry : List (Field Double)}

/-! ### All lines -/

/-- The set contains the texts of some lines. -/
def Seen (s : Loading Double) (seen : List (List (List Char))) : Prop :=
  ∀ line, entryString (values line) ∈ s.parsedEntries ↔ values line ∈ seen

theorem length_of_entryOf (hlength : (values line).length ≤ format.length)
    (h : EntryOf doubles format (values line) entry) :
  entry.length = (values line).length
  := by
  have hzip := congrArg List.length h
  rw [List.length_zipWith, List.length_map] at hzip
  omega

/-- A line whose values have been seen is written. -/
theorem next_of_mem {seen : List (List (List Char))} (hseen : Seen s seen)
    (h : values line ∈ seen) (format : List FieldFormat) (entry : List (Field Double)) :
  s.next format line entry = s.report "duplicate entry" line
    ∧ Seen (s.next format line entry) (values line :: seen)
  := by
  have hnext : s.next format line entry = s.report "duplicate entry" line :=
    if_pos ((hseen line).mpr h)
  refine ⟨hnext, fun line' => ?_⟩
  rw [hnext, Loading.report, hseen, List.mem_cons, or_iff_right_of_imp]
  exact fun heq => heq ▸ h

/-- The values of any other line are remembered. -/
theorem seen_next {seen : List (List (List Char))} (hseen : Seen s seen)
    (h : values line ∉ seen) (format : List FieldFormat) (entry : List (Field Double)) :
  Seen (s.next format line entry) (values line :: seen)
  := by
  have hparsed : (s.next format line entry).parsedEntries
      = entryString (values line) :: s.parsedEntries := by
    rw [Loading.next, if_neg (mt (hseen line).mp h)]
    dsimp only [Loading.report, Loading.addEntry]
    split_ifs <;> rfl
  intro line'
  rw [hparsed, List.mem_cons, List.mem_cons, entryString_inj, hseen]

theorem reports_cons (what : List Char) (whats : List (List Char)) :
  reports (what :: whats) (line :: lines)
    = ["Exception: ".toList ++ what, line] ++ reports whats lines
  := rfl

theorem addEntry_outFile : (s.addEntry entry).outFile = s.outFile
  := by
  rw [Loading.addEntry]
  split_ifs <;> rfl

/-- What loading does with all lines if it comes to the end. -/
theorem of_foldlM {seen : List (List (List Char))} (hseen : Seen s seen)
    (h : lines.foldlM (enter doubles format) s = .ok s') :
  (∀ line ∈ lines, Readable doubles format line)
    ∧ ∃ entries whats,
        List.Forall₂ (fun line entry => EntryOf doubles format (values line) entry)
          (firsts (Full format) values seen lines) entries
        ∧ whats.length = (others (Full format) values seen lines).length
        ∧ (format ≠ [] → s'.data = s.data ++ entries)
        ∧ s'.outFile = s.outFile ++ reports whats (others (Full format) values seen lines)
  := by
  induction lines generalizing s seen with
  | nil =>
      cases h
      exact ⟨nofun, [], [], .nil, rfl, fun _ => (List.append_nil _).symm,
        (List.append_nil _).symm⟩
  | cons line lines ih =>
      rw [List.foldlM_cons] at h
      cases henter : enter doubles format s line with
      | error e =>
          rw [henter] at h
          cases h
      | ok s₁ =>
          rw [henter] at h
          obtain ⟨hlength, entry, hentry, rfl⟩ := of_enter henter
          have hentryLength := length_of_entryOf hlength hentry
          have hreadable : Readable doubles format line :=
            ⟨hlength, exists_entryOf.mp ⟨entry, hentry⟩⟩
          rw [firsts, others]
          by_cases hmem : values line ∈ seen
          · obtain ⟨hnext, hseen'⟩ := next_of_mem hseen hmem format entry
            obtain ⟨hall, entries, whats, hentries, hwhats, hdata, hout⟩ := ih hseen' h
            rw [if_neg fun hfirst => hfirst.2 hmem, if_neg fun hfirst => hfirst.2 hmem]
            refine ⟨List.forall_mem_cons.mpr ⟨hreadable, hall⟩, entries,
              "duplicate entry".toList :: whats, hentries, congrArg Nat.succ hwhats, ?_, ?_⟩
            · intro hne
              rw [hdata hne, hnext, Loading.report]
            · rw [hout, hnext, Loading.report, reports_cons, List.append_assoc]
          · have hseen' := seen_next hseen hmem format entry
            obtain ⟨hall, entries, whats, hentries, hwhats, hdata, hout⟩ := ih hseen' h
            rw [Loading.next, if_neg (mt (hseen line).mp hmem)] at hdata hout
            by_cases hfull : Full format line
            · rw [if_pos ⟨hfull, hmem⟩, if_pos ⟨hfull, hmem⟩]
              have hfull : entry.length = format.length := hentryLength.trans hfull
              rw [if_neg (Nat.not_lt.mpr hfull.ge)] at hdata hout
              rw [addEntry_outFile] at hout
              refine ⟨List.forall_mem_cons.mpr ⟨hreadable, hall⟩, entry :: entries, whats,
                .cons hentry hentries, hwhats, ?_, hout⟩
              intro hne
              have hnonempty : ¬entry.isEmpty = true := by
                rw [List.isEmpty_iff_length_eq_zero, hfull, List.length_eq_zero_iff]
                exact hne
              rw [hdata hne, Loading.addEntry, if_neg hnonempty, List.append_assoc]
              rfl
            · rw [if_neg fun hfirst => hfull hfirst.1, if_neg fun hfirst => hfull hfirst.1]
              have hshort : entry.length < format.length :=
                lt_of_le_of_ne (hentryLength.trans_le hlength)
                  fun heq => hfull (hentryLength.symm.trans heq)
              rw [if_pos hshort, Loading.report] at hdata hout
              refine ⟨List.forall_mem_cons.mpr ⟨hreadable, hall⟩, entries,
                "missing field".toList :: whats, hentries, congrArg Nat.succ hwhats, hdata, ?_⟩
              rw [hout, reports_cons, List.append_assoc]

/-- Loading comes to the end of lines that can be read. -/
theorem exists_foldlM (h : ∀ line ∈ lines, Readable doubles format line) (s : Loading Double) :
  ∃ s', lines.foldlM (enter doubles format) s = .ok s'
  := by
  induction lines generalizing s with
  | nil => exact ⟨s, rfl⟩
  | cons line lines ih =>
      obtain ⟨⟨hlength, hconverts⟩, hlines⟩ := List.forall_mem_cons.mp h
      obtain ⟨entry, hentry⟩ := exists_entryOf.mpr hconverts
      rw [List.foldlM_cons, enter_eq hlength hentry]
      exact ih hlines _

/-- Without fields there are no entries. -/
theorem data_of_format_nil (h : lines.foldlM (enter doubles []) s = .ok s') :
  s'.data = s.data ∧ ∀ line ∈ lines, values line = []
  := by
  induction lines generalizing s with
  | nil =>
      cases h
      exact ⟨rfl, nofun⟩
  | cons line lines ih =>
      rw [List.foldlM_cons] at h
      cases henter : enter doubles [] s line with
      | error e =>
          rw [henter] at h
          cases h
      | ok s₁ =>
          rw [henter] at h
          obtain ⟨hlength, entry, hentry, rfl⟩ := of_enter henter
          obtain ⟨hdata, hlines⟩ := ih h
          have hvalues : values line = [] := List.length_eq_zero_iff.mp (Nat.le_zero.mp hlength)
          have hempty : entry = [] := by
            rw [← List.length_eq_zero_iff, length_of_entryOf hlength hentry, hvalues]
            rfl
          refine ⟨hdata.trans ?_, List.forall_mem_cons.mpr ⟨hvalues, hlines⟩⟩
          rw [hempty, Loading.next]
          split_ifs <;> rfl

/-! ### Accounts -/

theorem reports_inj {whats whats' : List (List Char)} {lines lines' : List Line}
    (hlength : whats.length = lines.length) (hlength' : whats'.length = lines'.length)
    (h : reports whats lines = reports whats' lines') :
  lines = lines'
  := by
  induction lines generalizing whats whats' lines' with
  | nil =>
      cases lines' with
      | nil => rfl
      | cons line' lines' =>
          obtain ⟨what', whats', rfl⟩ := List.exists_cons_of_length_eq_add_one hlength'
          rw [List.length_eq_zero_iff.mp hlength] at h
          cases h
  | cons line lines ih =>
      obtain ⟨what, whats, rfl⟩ := List.exists_cons_of_length_eq_add_one hlength
      cases lines' with
      | nil =>
          rw [List.length_eq_zero_iff.mp hlength'] at h
          cases h
      | cons line' lines' =>
          obtain ⟨what', whats', rfl⟩ := List.exists_cons_of_length_eq_add_one hlength'
          rw [reports_cons, reports_cons] at h
          obtain ⟨hfirst, htail⟩ := List.append_inj h rfl
          obtain ⟨-, hline⟩ := List.cons.inj hfirst
          obtain ⟨rfl, -⟩ := List.cons.inj hline
          rw [ih (Nat.succ.inj hlength) (Nat.succ.inj hlength') htail]

theorem seen_new (outFile : List Line) :
  Seen (⟨[], [], outFile⟩ : Loading Double) []
  := fun _ => iff_of_false List.not_mem_nil List.not_mem_nil

/-! ### Agreement -/

/-- The program takes the lines for entries that fit and occur first. -/
abbrev Agrees (doubles : Doubles Double) (format : List FieldFormat) (lines : List Line) : Prop :=
  Agree (Full format) values (Fits doubles format) lines

theorem full_of_not_open (hopen : ¬Open line) : Full format line ↔ Complete format line
  := by
  rw [Full, Complete, values_of_not_open hopen]

theorem full_of_open (hopen : Open line) :
  Full format line ↔ (fields line).length = format.length + 1
  := by
  rw [Full, fields_of_open hopen, List.length_append, List.length_singleton]
  omega

/-- A line is entered with its last delimiter only after it has been entered without. -/
theorem Orderly.exists_whole (h : Orderly doubles format lines) {before after : List Line}
    (hlines : lines = before ++ line :: after) (hopen : Open line) (hfull : Full format line) :
  ∃ whole ∈ before, ¬Open whole ∧ line = whole ++ ['|']
  := h.follows before line after hlines hopen ((full_of_open hopen).mp hfull)

theorem Orderly.agrees (h : Orderly doubles format lines) : Agrees doubles format lines
  := by
  intro before line after hlines
  have hmem : line ∈ lines := hlines ▸ List.mem_append_right before List.mem_cons_self
  constructor
  · rintro ⟨hfull, hnew⟩
    refine ⟨?_, fun hbefore => hnew (List.mem_map_of_mem hbefore)⟩
    have hopen : ¬Open line := by
      intro hopen
      obtain ⟨whole, hwhole, hclosed, rfl⟩ := h.exists_whole hlines hopen hfull
      apply hnew
      rw [values_append_delimiter, ← values_of_not_open hclosed]
      exact List.mem_map_of_mem hwhole
    exact (h.fits line hmem ((full_of_not_open hopen).mp hfull)).mpr hopen
  · rintro ⟨hfits, hnew⟩
    have hopen : ¬Open line := (h.fits line hmem hfits.1).mp hfits
    refine ⟨(full_of_not_open hopen).mpr hfits.1, fun hbefore => ?_⟩
    obtain ⟨line', hline', hvalues⟩ := List.mem_map.mp hbefore
    rcases eq_or_eq_append hopen hvalues with rfl | rfl
    · exact hnew hline'
    · -- the line with the delimiter would come first
      obtain ⟨before', after', rfl⟩ := List.append_of_mem hline'
      have hfull : Full format (line ++ ['|']) := by
        rw [Full, values_append_delimiter]
        exact hfits.1
      obtain ⟨whole, hwhole, -, heq⟩ := h.exists_whole
        (hlines.trans (by rw [List.append_assoc]; rfl)) open_append_delimiter hfull
      rw [List.append_cancel_right heq] at hnew
      exact hnew (List.mem_append_left _ hwhole)

/-- A line that the program takes for a first entry, and that ends with an empty field, has been
entered without it. -/
theorem Agree.exists_whole (h : Agrees doubles format lines) {before after : List Line}
    (hlines : lines = before ++ line :: after) (hopen : Open line) (hfull : Full format line) :
  ∃ whole ∈ before, ¬Open whole ∧ line = whole ++ ['|']
  := by
  -- at the first occurrence of the line
  obtain ⟨first, rest, hfirst, hnew⟩ :=
    List.eq_append_cons_of_mem (List.mem_append_right before (List.mem_singleton_self line))
  have hplace : lines = first ++ line :: (rest ++ after) := by
    rw [hlines, ← List.singleton_append, ← List.append_assoc, hfirst, List.append_assoc]
    rfl
  have hmem : values line ∈ first.map values := by
    by_contra hvalues
    have hcomplete := ((h first line _ hplace).mp ⟨hfull, hvalues⟩).1.1
    rw [Complete, (full_of_open hopen).mp hfull] at hcomplete
    omega
  obtain ⟨whole, hwhole, hvalues⟩ := List.mem_map.mp hmem
  have hne : whole ≠ line := fun heq => hnew (heq ▸ hwhole)
  have hclosed : ¬Open whole := by
    intro hopen'
    apply hne
    apply fields_inj
    rw [fields_of_open hopen, fields_of_open hopen', hvalues]
  refine ⟨whole, ?_, hclosed, (eq_or_eq_append hclosed hvalues.symm).resolve_left hne.symm⟩
  have hbefore : whole ∈ before ++ [line] := hfirst ▸ List.mem_append_left _ hwhole
  exact (List.mem_append.mp hbefore).resolve_right fun hsame => hne (List.mem_singleton.mp hsame)

theorem Agree.fits (h : Agrees doubles format lines) (hline : line ∈ lines)
    (hcomplete : Complete format line) :
  Fits doubles format line ↔ ¬Open line
  := by
  obtain ⟨before, after, hlines, hnew⟩ := List.eq_append_cons_of_mem hline
  have hplace := h before line after hlines
  constructor
  · intro hfits hopen
    have hfull := (full_of_open hopen).mp (hplace.mpr ⟨hfits, hnew⟩).1
    rw [Complete] at hcomplete
    omega
  · intro hopen
    refine (hplace.mp ⟨(full_of_not_open hopen).mpr hcomplete, fun hmem => ?_⟩).1
    obtain ⟨line', hline', hvalues⟩ := List.mem_map.mp hmem
    rcases eq_or_eq_append hopen hvalues with rfl | rfl
    · exact hnew hline'
    · obtain ⟨before', after', rfl⟩ := List.append_of_mem hline'
      have hfull : Full format (line ++ ['|']) := by
        rw [Full, values_append_delimiter]
        exact hcomplete
      obtain ⟨whole, hwhole, -, heq⟩ := Agree.exists_whole h
        (hlines.trans (by rw [List.append_assoc]; rfl)) open_append_delimiter hfull
      rw [List.append_cancel_right heq] at hnew
      exact hnew (List.mem_append_left _ hwhole)

theorem Agree.orderly (h : Agrees doubles format lines)
    (hreadable : ∀ line ∈ lines, Readable doubles format line) :
  Orderly doubles format lines
  where
  hasFields := by
    rintro rfl
    cases lines with
    | nil => rfl
    | cons line lines =>
        -- the first line has a field, but no value
        have hfull : Full [] line := Nat.le_zero.mp (hreadable line List.mem_cons_self).1
        have hcomplete := ((h [] line lines rfl).mp ⟨hfull, List.not_mem_nil⟩).1.1
        exact absurd (List.length_eq_zero_iff.mp hcomplete) (List.splitOn_ne_nil '|' line)
  readable := hreadable
  fits _ hline hcomplete := Agree.fits h hline hcomplete
  follows _ _ _ hlines hopen hlength :=
    Agree.exists_whole h hlines hopen ((full_of_open hopen).mpr hlength)

theorem Accounted.orderly {formatLine : Line} (h : Accounted doubles formatLine lines) :
  Orderly doubles (parseFormat formatLine) lines
  := by
  obtain ⟨s, whats, hload, -, hwhats, hout⟩ := h
  rw [load] at hload
  generalize parseFormat formatLine = format at *
  cases hrun : lines.foldlM (enter doubles format) ⟨[], [], [header format]⟩ with
  | error e =>
      rw [hrun] at hload
      cases hload
  | ok s₁ =>
      rw [hrun] at hload
      cases hload
      obtain ⟨hreadable, entries, whats', -, hwhats', -, hout'⟩ := of_foldlM (seen_new _) hrun
      rw [hout', List.singleton_append] at hout
      have hothers : others (Full format) values [] lines
          = others (Fits doubles format) id [] lines :=
        reports_inj hwhats' hwhats (List.append_cancel_right (List.cons.inj hout).2)
      exact Agree.orderly (agree_of_others_eq hothers) hreadable

theorem Orderly.accounted {formatLine : Line} (h : Orderly doubles (parseFormat formatLine) lines) :
  Accounted doubles formatLine lines
  := by
  rw [Accounted, load]
  generalize parseFormat formatLine = format at *
  rcases eq_or_ne format [] with rfl | hne
  · rw [h.hasFields rfl]
    exact ⟨_, [], rfl, .nil, rfl, rfl⟩
  · obtain ⟨s, hrun⟩ := exists_foldlM h.readable ⟨[], [], [header format]⟩
    obtain ⟨-, entries, whats, hentries, hwhats, hdata, hout⟩ := of_foldlM (seen_new _) hrun
    obtain ⟨hfirsts, hothers⟩ := h.agrees.congr
    rw [hfirsts] at hentries
    rw [hothers] at hwhats hout
    have hfields : ∀ line ∈ firsts (Fits doubles format) id [] lines,
        values line = fields line := by
      intro line hline
      obtain ⟨hfits, -, hmem⟩ := of_mem_firsts hline
      exact values_of_not_open ((h.fits line hmem hfits.1).mp hfits)
    rw [hrun]
    refine ⟨_, whats, rfl, ?_, hwhats, ?_⟩
    · change List.Forall₂ _ _ s.data
      rw [hdata hne]
      exact ((List.forall₂_and_left _ _).mpr ⟨hfields, hentries⟩).imp
        fun line entry hentry => hentry.1 ▸ hentry.2
    · rw [hout]
      rfl

/-- Loading accounts for every line if and only if the lines are orderly. -/
theorem accounted_iff {Double : Type} (doubles : Doubles Double) (formatLine : Line)
    (lines : List Line) :
  Accounted doubles formatLine lines ↔ Orderly doubles (parseFormat formatLine) lines
  := ⟨Accounted.orderly, Orderly.accounted⟩

/-- The second value of a line is looked up in a format of one field. -/
theorem line_too_long :
  ¬ ∀ {Double : Type} (doubles : Doubles Double) (formatLine : Line) (lines : List Line),
    Accounted doubles formatLine lines
  := by
  intro h
  let doubles : Doubles Unit := ⟨fun _ => .error .invalidArgument, fun _ => (none, false)⟩
  obtain ⟨s, -, hload, -⟩ := h doubles "name:string:single".toList ["x|y".toList]
  cases hload

end Catalogue
