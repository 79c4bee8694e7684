import Wiring.Files.Tree
import Wiring.Proofs.Outcomes

/-!
# Changes in a directory tree

What is put under a name of a directory is found there, and every other name of the directory
keeps what it has, `look?_put`.  No directory is lost as long as nothing is put in place of
one, `IsDirectory.put`, so steps that lead to a directory still lead there, `follow_put`.
-/

namespace Wiring.Tree

/-! ## Looking along names -/

theorem find?_append (names rest : List String) (t : Tree) :
    find? (names ++ rest) t = (find? names t).bind (find? rest) := by
  fun_induction find? names t with
  | case1 t => rfl
  | case2 name names content => rfl
  | case3 name names entries hlookup => simp [find?, hlookup]
  | case4 name names entries sub hlookup ih => simp [find?, hlookup, ih]

theorem find?_cons (first : String) (rest : List String) (entries : List (String × Tree)) :
    find? (first :: rest) (.directory entries) = (entries.lookup first).bind (find? rest) := by
  rw [find?]
  cases entries.lookup first <;> rfl

theorem find?_singleton (name : String) (entries : List (String × Tree)) :
    find? [name] (.directory entries) = entries.lookup name := by
  rw [find?_cons]
  cases entries.lookup name <;> rfl

/-- Below a file there is no directory. -/
theorem find?_file_ne (path : List String) (content : String) (entries : List (String × Tree)) :
    find? path (.file content) ≠ some (.directory entries) := by
  cases path <;> simp [find?]

/-- Whether a place is a directory. -/
def IsDirectory (t : Tree) (place : Place) : Prop :=
  ∃ entries, t.look? place = some (.directory entries)

theorem look?_cons {t : Tree} {place : Place} {entries : List (String × Tree)}
    (h : t.look? place = some (.directory entries)) (name : String) :
    t.look? (name :: place) = entries.lookup name := by
  rw [look?, List.reverse_cons, find?_append, ← look?, h, Option.bind_some, find?_singleton]

theorem entries_eq_ok_iff {t : Tree} {place : Place} {entries : List (String × Tree)} :
    t.entries place = .ok entries ↔ t.look? place = some (.directory entries) := by
  rw [Tree.entries]
  split
  · rename_i found h
    rw [h]
    simp
  · rename_i h
    refine iff_of_false nofun fun heq => h entries heq

/-! ## Putting -/

theorem lookup_cons_eq_ite (other : String) (entry : String × Tree)
    (entries : List (String × Tree)) :
    (entry :: entries).lookup other =
      if other = entry.1 then some entry.2 else entries.lookup other := by
  rw [List.lookup_cons]
  by_cases h : other = entry.1
  · simp [h]
  · rw [beq_eq_false_iff_ne.2 h, if_neg h]

theorem lookup_filter_ne (name other : String) (entries : List (String × Tree)) :
    (entries.filter fun entry => entry.1 ≠ name).lookup other =
      if other = name then none else entries.lookup other := by
  induction entries with
  | nil => simp
  | cons entry rest ih =>
    rw [lookup_cons_eq_ite]
    by_cases hentry : entry.1 = name
    · rw [List.filter_cons_of_neg (by simpa using hentry), ih]
      by_cases hother : other = name
      · rw [if_pos hother, if_pos hother]
      · rw [if_neg hother, if_neg hother, if_neg fun heq => hother (heq.trans hentry)]
    · rw [List.filter_cons_of_pos (by simpa using hentry), lookup_cons_eq_ite, ih]
      by_cases hother : other = entry.1
      · rw [if_pos hother, if_neg fun heq => hentry (hother.symm.trans heq), if_pos hother]
      · rw [if_neg hother, if_neg hother]

theorem lookup_map_replace (name other : String) (t : Tree) (entries : List (String × Tree)) :
    (entries.map fun entry => if entry.1 = name then (name, t) else entry).lookup other =
      if other = name then (entries.lookup name).map fun _ => t else entries.lookup other := by
  induction entries with
  | nil => simp
  | cons entry rest ih =>
    rw [List.map_cons, lookup_cons_eq_ite, ih, lookup_cons_eq_ite, lookup_cons_eq_ite]
    by_cases hentry : entry.1 = name
    · by_cases hother : other = name <;> simp [hentry, hother]
    · by_cases hother : other = name
      · simp [hother, hentry, Ne.symm hentry]
      · by_cases hfound : other = entry.1 <;> simp [hentry, hother, hfound]

/-- Another entry under a name changes what is found under that name only. -/
theorem lookup_set (name other : String) (t? : Option Tree) (entries : List (String × Tree)) :
    (set name t? entries).lookup other = if other = name then t? else entries.lookup other := by
  cases t? with
  | none => exact lookup_filter_ne name other entries
  | some t =>
    rw [set]
    split
    · rename_i hthere
      obtain ⟨old, hold⟩ := Option.isSome_iff_exists.1 hthere
      rw [lookup_map_replace, hold, Option.map_some]
    · rename_i hmissing
      have hnone : entries.lookup name = none := Option.not_isSome_iff_eq_none.1 hmissing
      rw [List.lookup_append, lookup_cons_eq_ite]
      by_cases hother : other = name
      · rw [if_pos hother, if_pos hother, hother, hnone, Option.none_or]
      · rw [if_neg hother, if_neg hother, List.lookup_nil, Option.or_none]

/-- Below the first name, putting goes on in what stands under it. -/
theorem putAtEnd_cons_append (t? : Option Tree) (first : String) (names : List String)
    (name : String) (entries : List (String × Tree)) :
    putAtEnd t? (first :: (names ++ [name])) (.directory entries) =
      match entries.lookup first with
      | none => .directory entries
      | some sub => .directory (set first (some (putAtEnd t? (names ++ [name]) sub)) entries) := by
  cases names <;> rfl

theorem find?_putAtEnd {t : Tree} {names : List String} {entries : List (String × Tree)}
    (h : find? names t = some (.directory entries)) (name : String) (t? : Option Tree) :
    find? names (putAtEnd t? (names ++ [name]) t) = some (.directory (set name t? entries)) := by
  fun_induction find? names t with
  | case1 t =>
    rw [Option.some.inj h]
    rfl
  | case2 first names content => cases h
  | case3 first names above hlookup => cases h
  | case4 first names above sub hlookup ih =>
    rw [List.cons_append, putAtEnd_cons_append, hlookup]
    dsimp only
    rw [find?, lookup_set, if_pos rfl]
    exact ih h

/-- No directory is lost where none is put away. -/
theorem exists_find?_putAtEnd {t : Tree} {names path : List String} {name : String}
    (htarget : ∀ entries, find? (names ++ [name]) t ≠ some (.directory entries))
    (h : ∃ entries, find? path t = some (.directory entries)) (t? : Option Tree) :
    ∃ entries, find? path (putAtEnd t? (names ++ [name]) t) = some (.directory entries) := by
  induction names generalizing t path with
  | nil =>
    cases t with
    | file content => exact h
    | directory entries =>
      cases path with
      | nil => exact ⟨_, rfl⟩
      | cons first below =>
        obtain ⟨found, hfound⟩ := h
        rw [find?_cons] at hfound
        have hne : first ≠ name := fun heq => by
          rw [List.nil_append, find?_singleton] at htarget
          rw [heq] at hfound
          cases hlookup : entries.lookup name with
          | none => simp [hlookup] at hfound
          | some sub =>
            rw [hlookup] at hfound
            cases sub with
            | file content => exact find?_file_ne below content found hfound
            | directory entries' => exact htarget entries' hlookup
        refine ⟨found, ?_⟩
        rw [List.nil_append, putAtEnd, find?_cons, lookup_set, if_neg hne]
        exact hfound
  | cons first names ih =>
    cases t with
    | file content => exact h
    | directory entries =>
      rw [List.cons_append, putAtEnd_cons_append]
      cases hlookup : entries.lookup first with
      | none => exact h
      | some sub =>
        cases path with
        | nil => exact ⟨_, rfl⟩
        | cons other below =>
          obtain ⟨found, hfound⟩ := h
          rw [find?_cons] at hfound
          dsimp only
          rw [find?_cons, lookup_set]
          split
          · rename_i heq
            rw [heq, hlookup, Option.bind_some] at hfound
            exact ih (fun entries' => by simpa [find?_cons, hlookup] using htarget entries')
              ⟨found, hfound⟩
          · exact ⟨found, hfound⟩

/-! ## Places -/

section Put

variable {t : Tree} {place : Place} {name : String}

/-- What is put under a name of a directory is found there, and nothing else changes in the
directory. -/
theorem look?_put (h : t.IsDirectory place) (other : String) (t? : Option Tree) :
    (t.put (name :: place) t?).look? (other :: place) =
      if other = name then t? else t.look? (other :: place) := by
  obtain ⟨entries, hentries⟩ := h
  have hput : (t.put (name :: place) t?).look? place = some (.directory (set name t? entries)) := by
    rw [put, List.reverse_cons]
    exact find?_putAtEnd hentries name t?
  rw [look?_cons hput, lookup_set, look?_cons hentries]

/-- No directory is lost where none is put away. -/
theorem IsDirectory.put {other : Place} (h : t.IsDirectory other)
    (hname : ¬ t.IsDirectory (name :: place)) (t? : Option Tree) :
    (t.put (name :: place) t?).IsDirectory other := by
  rw [Tree.put, List.reverse_cons]
  refine exists_find?_putAtEnd (fun entries heq => hname ⟨entries, ?_⟩) h t?
  rw [look?, List.reverse_cons, heq]

end Put

/-! ## Steps -/

/-- A name is entered where it fits and something stands under it. -/
theorem enter_eq_of_isDirectory {t : Tree} {place : Place} (h : t.IsDirectory place)
    (name : String) :
    t.enter place name =
      if nameLimit < name.utf8ByteSize then .error .nameTooLong
      else if (t.look? (name :: place)).isNone then .error .missing
      else .ok (name :: place) := by
  obtain ⟨entries, hentries⟩ := h
  rw [enter, entries_eq_ok_iff.2 hentries, look?_cons hentries]
  rfl

theorem enter_eq_ok_iff {t : Tree} {place next : Place} (h : t.IsDirectory place)
    {name : String} :
    t.enter place name = .ok next ↔
      name.utf8ByteSize ≤ nameLimit ∧ (t.look? (name :: place)).isSome = true ∧
        next = name :: place := by
  rw [enter_eq_of_isDirectory h]
  split
  · exact iff_of_false nofun fun hall => by omega
  · split
    · rename_i hnone
      exact iff_of_false nofun fun hall => by
        rw [Option.isNone_iff_eq_none] at hnone
        simp [hnone] at hall
    · rename_i hfits hsome
      rw [Option.isNone_iff_eq_none, ← ne_eq, Option.ne_none_iff_isSome] at hsome
      exact ⟨fun heq => ⟨Nat.le_of_not_lt hfits, hsome, (Except.ok.inj heq).symm⟩,
        fun hall => by rw [hall.2.2]⟩

/-- A step is taken from a directory only. -/
theorem isDirectory_of_take {t : Tree} {place next : Place} {step : Step}
    (h : t.take place step = .ok next) : t.IsDirectory place := by
  cases hentries : t.entries place with
  | ok entries => exact ⟨entries, entries_eq_ok_iff.1 hentries⟩
  | error fault =>
    cases step with
    | stay | up =>
      rw [take, hentries] at h
      cases h
    | enter name =>
      rw [take, enter, hentries] at h
      cases h

theorem take_stay_eq_ok_iff {t : Tree} {place next : Place} :
    t.take place .stay = .ok next ↔ t.IsDirectory place ∧ next = place := by
  refine ⟨fun h => ⟨isDirectory_of_take h, ?_⟩, ?_⟩
  · obtain ⟨entries, hentries⟩ := isDirectory_of_take h
    rw [take, entries_eq_ok_iff.2 hentries] at h
    exact (Except.ok.inj h).symm
  · rintro ⟨⟨entries, hentries⟩, rfl⟩
    rw [take, entries_eq_ok_iff.2 hentries]
    rfl

theorem follow_append (t : Tree) (place : Place) (steps rest : List Step) :
    t.follow place (steps ++ rest) = t.follow place steps >>= fun next => t.follow next rest := by
  induction steps generalizing place with
  | nil => rfl
  | cons step steps ih =>
    rw [List.cons_append, follow, follow]
    cases t.take place step with
    | error fault => rfl
    | ok next => exact ih next

theorem follow_cons_eq_ok_iff {t : Tree} {place last : Place} {step : Step} {steps : List Step} :
    t.follow place (step :: steps) = .ok last ↔
      ∃ next, t.take place step = .ok next ∧ t.follow next steps = .ok last := by
  rw [follow, bind_eq_ok_iff]

/-- Steps with a dot behind them lead to where they lead without it, if that is a
directory. -/
theorem follow_stay_eq_ok_iff {t : Tree} {place last : Place} {steps : List Step} :
    t.follow place (steps ++ [.stay]) = .ok last ↔
      t.follow place steps = .ok last ∧ t.IsDirectory last := by
  rw [follow_append, bind_eq_ok_iff]
  constructor
  · rintro ⟨next, hsteps, hdot⟩
    obtain ⟨last', htake, hlast⟩ := follow_cons_eq_ok_iff.1 hdot
    obtain ⟨hdirectory, rfl⟩ := take_stay_eq_ok_iff.1 htake
    obtain rfl := Except.ok.inj hlast
    exact ⟨hsteps, hdirectory⟩
  · rintro ⟨hsteps, hdirectory⟩
    have htake := take_stay_eq_ok_iff.2 ⟨hdirectory, rfl⟩
    exact ⟨last, hsteps, follow_cons_eq_ok_iff.2 ⟨last, htake, rfl⟩⟩

/-- Where a dot follows, the start is a directory too. -/
theorem isDirectory_of_follow {t : Tree} {place last : Place} {steps : List Step}
    (h : t.follow place (steps ++ [.stay]) = .ok last) : t.IsDirectory place := by
  cases steps with
  | nil =>
    obtain ⟨next, htake, -⟩ := follow_cons_eq_ok_iff.1 h
    exact isDirectory_of_take htake
  | cons step steps =>
    obtain ⟨next, htake, -⟩ := follow_cons_eq_ok_iff.1 h
    exact isDirectory_of_take htake

/-- A step from a directory to a directory can be taken where both still are directories. -/
theorem take_of_isDirectory {t t' : Tree} {place next : Place} {step : Step}
    (hkept : ∀ other, t.IsDirectory other → t'.IsDirectory other)
    (htake : t.take place step = .ok next) (hnext : t.IsDirectory next) :
    t'.take place step = .ok next := by
  have hplace := isDirectory_of_take htake
  cases step with
  | stay => exact take_stay_eq_ok_iff.2 ⟨hkept place hplace, (take_stay_eq_ok_iff.1 htake).2⟩
  | up =>
    obtain ⟨entries, hentries⟩ := hplace
    obtain ⟨entries', hentries'⟩ := hkept place ⟨entries, hentries⟩
    rw [take, entries_eq_ok_iff.2 hentries] at htake
    rw [take, entries_eq_ok_iff.2 hentries']
    exact htake
  | enter name =>
    obtain ⟨hfits, -, rfl⟩ := (enter_eq_ok_iff hplace).1 htake
    obtain ⟨entries, hentries⟩ := hkept _ hnext
    exact (enter_eq_ok_iff (hkept place hplace)).2 ⟨hfits, by rw [hentries]; rfl, rfl⟩

/-- Steps that lead to a directory lead there still where no directory is lost. -/
theorem follow_of_isDirectory {t t' : Tree} {place last : Place} {steps : List Step}
    (hkept : ∀ other, t.IsDirectory other → t'.IsDirectory other)
    (h : t.follow place (steps ++ [.stay]) = .ok last) :
    t'.follow place (steps ++ [.stay]) = .ok last := by
  induction steps generalizing place with
  | nil =>
    obtain ⟨next, htake, hlast⟩ := follow_cons_eq_ok_iff.1 h
    obtain ⟨hplace, rfl⟩ := take_stay_eq_ok_iff.1 htake
    exact follow_cons_eq_ok_iff.2 ⟨next, take_stay_eq_ok_iff.2 ⟨hkept next hplace, rfl⟩, hlast⟩
  | cons step steps ih =>
    obtain ⟨next, htake, hrest⟩ := follow_cons_eq_ok_iff.1 h
    have hnext := isDirectory_of_follow hrest
    exact follow_cons_eq_ok_iff.2 ⟨next, take_of_isDirectory hkept htake hnext, ih hrest⟩

end Wiring.Tree
