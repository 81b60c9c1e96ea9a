import TapeFlow.Files.Exchange
import TapeFlow.Proofs.Texts

namespace TapeFlow

theorem startRenderer_eq_ok_iff {renderer : Option Renderer} {path dot : Text}
    {rendering : Rendering} : startRenderer renderer path dot = .ok rendering ↔
      Path.isUsable (Path.names path) = true ∧ ∃ draw, renderer = some draw ∧ rendering = draw dot := by
  unfold startRenderer
  cases Path.isUsable (Path.names path) with
  | false => simp
  | true => cases renderer <;> simp [eq_comm]

namespace FileTree

/-! Operations on a file tree, by what they leave alone. None of them takes a directory away, so a path
that leads to a place goes on leading there, whatever is made or written elsewhere. -/

variable {tree before middle after : FileTree} {place location : Location} {path : Text}
  {octets : List UInt8} {touched : Location → Prop}

theorem walk_cons_eq_ok_iff {name : Text} {names : List Text} :
    tree.walk location (name :: names) = .ok place ↔
      tree.get? location = some .directory ∧ Path.isLongName name = false ∧
        tree.walk (follow location name) names = .ok place := by
  rw [walk]
  rcases tree.get? location with _ | _ | held
  · simp
  · cases Path.isLongName name <;> simp
  · simp

theorem bind_eq_ok {ε α β : Type} {result : Except ε α} {next : α → Except ε β} {value : β} :
    result >>= next = .ok value ↔ ∃ middle, result = .ok middle ∧ next middle = .ok value := by
  cases result <;> simp [bind, Except.bind]

theorem seq_eq_ok {ε α : Type} {check : Except ε Unit} {next : Except ε α} {value : α} :
    (check >>= fun _ => next) = .ok value ↔ check = .ok () ∧ next = .ok value := by
  cases check <;> simp [bind, Except.bind]

theorem reach_eq_ok_iff {names : List Text} : tree.reach location names = .ok place ↔
    screen names = .ok () ∧ tree.walk location names = .ok place :=
  seq_eq_ok

/-- Nothing but files at touched places is replaced. -/
structure Spares (touched : Location → Prop) (before after : FileTree) : Prop where
  here : after.here = before.here
  directory : ∀ place, before.get? place = some .directory → after.get? place = some .directory
  file : ∀ place octets, ¬ touched place → before.get? place = some (.file octets) →
    after.get? place = some (.file octets)

namespace Spares

theorem refl (touched : Location → Prop) (tree : FileTree) : Spares touched tree tree where
  here := rfl
  directory := fun _ found => found
  file := fun _ _ _ found => found

theorem trans (first : Spares touched before middle) (second : Spares touched middle after) :
    Spares touched before after where
  here := second.here.trans first.here
  directory := fun place found => second.directory place (first.directory place found)
  file := fun place octets outside found =>
    second.file place octets outside (first.file place octets outside found)

theorem mono {more : Location → Prop} (spares : Spares touched before after)
    (within : ∀ place, touched place → more place) : Spares more before after where
  here := spares.here
  directory := spares.directory
  file := fun place octets outside found =>
    spares.file place octets (fun inside => outside (within place inside)) found

theorem walk (spares : Spares touched before after) {names : List Text}
    (walked : before.walk location names = .ok place) : after.walk location names = .ok place := by
  induction names generalizing location with
  | nil => exact walked
  | cons name names ih =>
      obtain ⟨found, short, rest⟩ := walk_cons_eq_ok_iff.mp walked
      exact walk_cons_eq_ok_iff.mpr ⟨spares.directory location found, short, ih rest⟩

theorem locate (spares : Spares touched before after) (located : before.locate path = .ok place) :
    after.locate path = .ok place := by
  obtain ⟨passed, walked⟩ := reach_eq_ok_iff.mp located
  refine reach_eq_ok_iff.mpr ⟨passed, ?_⟩
  rw [origin, spares.here]
  exact spares.walk walked

end Spares

theorem read_eq_ok_iff : tree.read path = .ok octets ↔
    ∃ place, tree.locate path = .ok place ∧ tree.get? place = some (.file octets) := by
  rw [read, bind_eq_ok]
  refine exists_congr fun place => and_congr_right fun _ => ?_
  rcases tree.get? place with _ | _ | held
  · simp [throw, throwThe, MonadExceptOf.throw]
  · simp [throw, throwThe, MonadExceptOf.throw]
  · simp [pure, Except.pure]

theorem write_eq_ok_iff : tree.write path octets = .ok after ↔
    ∃ place, tree.locate path = .ok place ∧ tree.get? place ≠ some .directory ∧
      after = tree.put place (.file octets) := by
  rw [write, bind_eq_ok]
  refine exists_congr fun place => and_congr_right fun _ => ?_
  rcases tree.get? place with _ | _ | held
  · simp [pure, Except.pure, eq_comm]
  · simp [throw, throwThe, MonadExceptOf.throw]
  · simp [pure, Except.pure, eq_comm]

theorem makeDirectory_eq_ok_iff {names : List Text} :
    tree.makeDirectory location names = .ok after ↔
      screen names = .ok () ∧ ∃ place, tree.walk location (Path.trimmed names) = .ok place ∧
        tree.get? place = none ∧ after = tree.put place .directory := by
  rw [makeDirectory, seq_eq_ok, bind_eq_ok]
  refine and_congr_right fun _ => exists_congr fun place => and_congr_right fun _ => ?_
  rcases tree.get? place with _ | entry
  · simp [pure, Except.pure, eq_comm]
  · simp [throw, throwThe, MonadExceptOf.throw]

theorem Spares.read (spares : Spares touched before after) (held : before.read path = .ok octets)
    (outside : ∀ place, before.locate path = .ok place → ¬ touched place) :
    after.read path = .ok octets := by
  obtain ⟨place, located, found⟩ := read_eq_ok_iff.mp held
  exact read_eq_ok_iff.mpr
    ⟨place, spares.locate located, spares.file place octets (outside place located) found⟩

theorem put_spares (entry : Entry) (free : tree.get? place ≠ some .directory) :
    Spares (· = place) tree (tree.put place entry) where
  here := rfl
  directory := by
    intro other found
    rw [get?_put_of_ne tree entry]
    · exact found
    · intro same
      exact free (same ▸ found)
  file := by
    intro other octets apart found
    rw [get?_put_of_ne tree entry apart]
    exact found

theorem put_spares_all (entry : Entry) (absent : tree.get? place = none) :
    Spares (fun _ => False) tree (tree.put place entry) where
  here := rfl
  directory := (put_spares entry (by simp [absent])).directory
  file := by
    intro other octets _ found
    refine (put_spares entry (by simp [absent])).file other octets ?_ found
    intro same
    rw [same, absent] at found
    cases found

theorem write_spares (written : tree.write path octets = .ok after) :
    Spares (fun place => tree.locate path = .ok place) tree after := by
  obtain ⟨place, located, free, rfl⟩ := write_eq_ok_iff.mp written
  refine (put_spares _ free).mono ?_
  intro other same
  rw [same, located]

theorem read_of_write (written : tree.write path octets = .ok after) :
    after.read path = .ok octets := by
  obtain ⟨place, located, free, rfl⟩ := write_eq_ok_iff.mp written
  have inside : place ≠ [] := by
    intro root
    exact free (by rw [root, get?, if_pos rfl])
  exact read_eq_ok_iff.mpr
    ⟨place, (put_spares _ free).locate located, get?_put_self tree _ inside⟩

theorem makeDirectory_spares {names : List Text}
    (made : tree.makeDirectory location names = .ok after) : Spares (fun _ => False) tree after := by
  obtain ⟨_, place, _, absent, rfl⟩ := makeDirectory_eq_ok_iff.mp made
  exact put_spares_all .directory absent

theorem ensureDirectory_spares {names : List Text}
    (made : tree.ensureDirectory location names = .ok after) : Spares (fun _ => False) tree after := by
  rw [ensureDirectory] at made
  split at made
  · split at made
    · cases made
      exact .refl _ tree
    · cases made
  · exact makeDirectory_spares made

theorem ensureDirectories_spares (tree : FileTree) (location : Location) (reversed : List Text) :
    Spares (fun _ => False) tree (tree.ensureDirectories location reversed).1 := by
  fun_induction ensureDirectories tree location reversed with
  | case1 => exact .refl _ tree
  | case2 name above after made => exact ensureDirectory_spares made
  | case3 name above missing partly problem higher ih =>
      rw [higher] at ih
      exact ih
  | case4 name above missing partly higher after made ih =>
      rw [higher] at ih
      exact ih.trans (ensureDirectory_spares made)
  | case5 name above missing partly higher problem refused ih =>
      rw [higher] at ih
      exact ih
  | case6 => exact .refl _ tree

theorem createDirectories_spares (tree : FileTree) (path : Text) :
    Spares (fun _ => False) tree (tree.createDirectories path).1 :=
  tree.ensureDirectories_spares _ _

theorem afterRendering_spares (tree : FileTree) (path : Text) (rendering : Rendering) :
    Spares (fun place => tree.locate path = .ok place) tree
      (tree.afterRendering path rendering).1 := by
  rw [afterRendering]
  split
  · exact .refl _ tree
  · split
    · exact write_spares ‹_›
    · exact .refl _ tree

theorem render_spares (tree : FileTree) (renderer : Option Renderer) (path dot : Text) :
    Spares (fun place => tree.locate path = .ok place) tree (tree.render renderer path dot).1 := by
  rw [render]
  cases startRenderer renderer path dot with
  | error reason => exact .refl _ tree
  | ok rendering => exact tree.afterRendering_spares path rendering

theorem status_of_afterRendering {rendering : Rendering}
    (ended : (tree.afterRendering path rendering).2 = .code 0) : rendering.status = .code 0 := by
  rw [afterRendering] at ended
  split at ended
  · exact ended
  · split at ended
    · exact ended
    · cases ended

/-- A picture is not counted as drawn unless the renderer takes the whole text and ends well. -/
theorem exists_renderer_of_render {renderer : Option Renderer} {dot : Text}
    (drawn : tree.render renderer path dot = (after, none)) :
    ∃ draw, renderer = some draw ∧ (draw dot).takesText = true ∧ (draw dot).status = .code 0 := by
  rw [render] at drawn
  cases started : startRenderer renderer path dot with
  | error reason =>
      rw [started] at drawn
      cases drawn
  | ok rendering =>
      obtain ⟨_, draw, rfl, rfl⟩ := startRenderer_eq_ok_iff.mp started
      simp only [started, Prod.mk.injEq] at drawn
      have silent := drawn.2
      split at silent
      · cases silent
      · rename_i taken
        split at silent
        · rename_i ended
          exact ⟨draw, rfl, by simpa using taken, status_of_afterRendering ended⟩
        · cases silent

end FileTree

namespace Path

/-! The path of a name in a directory leads to that name in the place of the directory. -/

variable {directory name path : Text}

theorem names_join (slashless : '/' ∉ name) (directory : Text) :
    ∃ base, names (join directory name) = base ++ [name] ∧
      (names directory = base ∨ names directory = base ++ [[]]) := by
  have alone : names name = [name] := List.splitOn_eq_singleton slashless
  have cut (front : Text) : names (front ++ '/' :: name) = names front ++ [name] := by
    rw [names, List.splitOn_append_cons_self, ← names, ← names, alone]
  rw [join]
  split
  · rename_i slash
    obtain ⟨front, rfl⟩ := List.getLast?_eq_some_iff.mp slash
    refine ⟨names front, ?_, .inr ?_⟩
    · rw [List.append_assoc, List.singleton_append, cut]
    · rw [names, List.splitOn_append_cons_self, ← names]
      rfl
  · exact ⟨names directory, cut directory, .inl rfl⟩

theorem isAbsolute_join (nonempty : directory ≠ []) (name : Text) :
    isAbsolute (join directory name) = isAbsolute directory := by
  obtain ⟨c, rest, rfl⟩ := List.exists_cons_of_ne_nil nonempty
  rw [join]
  split <;> rfl

theorem isLong_names (path : Text) : isLong (names path) = decide (4095 < (Utf8.encode path).length) := by
  rw [isLong, names, List.intercalate_splitOn]

theorem length_encode_join (directory name : Text) :
    (Utf8.encode directory).length ≤ (Utf8.encode (join directory name)).length := by
  rw [join]
  split <;> simp [Utf8.encode]

theorem mem_of_mem_withoutExtension {c : Char} (member : c ∈ withoutExtension name) : c ∈ name := by
  rw [withoutExtension] at member
  split at member
  · exact member
  · have kept := List.mem_of_mem_tail (List.mem_reverse.mp member)
    exact List.mem_reverse.mp ((List.dropWhile_sublist _).mem kept)

theorem slash_not_mem_stem (path : Text) : '/' ∉ stem path := by
  intro member
  rw [stem] at member
  split at member
  · cases member
  · rename_i name found
    split at member
    · cases member
    · have part := (List.mem_filter.mp (List.mem_of_getLast? found)).1
      exact Text.not_mem_of_mem_splitOn part (mem_of_mem_withoutExtension member)

end Path

namespace FileTree

variable {tree : FileTree} {location place : Location} {names : List Text}
  {directory name path : Text}

theorem walk_concat_eq_ok_iff : tree.walk location (names ++ [name]) = .ok place ↔
    ∃ inside, tree.walk location names = .ok inside ∧ tree.get? inside = some .directory ∧
      Path.isLongName name = false ∧ place = follow inside name := by
  induction names generalizing location with
  | nil =>
      rw [List.nil_append, walk_cons_eq_ok_iff]
      simp only [walk, Except.ok.injEq]
      constructor
      · intro ⟨found, short, same⟩
        exact ⟨location, rfl, found, short, same.symm⟩
      · intro ⟨inside, here, found, short, same⟩
        subst here
        exact ⟨found, short, same.symm⟩
  | cons first names ih =>
      rw [List.cons_append, walk_cons_eq_ok_iff, ih]
      simp only [walk_cons_eq_ok_iff]
      grind

theorem locate_eq_ok_iff : tree.locate path = .ok place ↔
    Path.isUsable (Path.names path) = true ∧ Path.isLong (Path.names path) = false ∧
      tree.walk (tree.origin path) (Path.names path) = .ok place := by
  rw [locate, reach_eq_ok_iff, screen]
  cases Path.isUsable (Path.names path) <;> cases Path.isLong (Path.names path) <;> simp

theorem follow_of_locate_join (slashless : '/' ∉ name)
    (located : tree.locate (Path.join directory name) = .ok place) :
    ∃ inside, place = follow inside name := by
  obtain ⟨base, joined, _⟩ := Path.names_join slashless directory
  obtain ⟨_, _, walked⟩ := locate_eq_ok_iff.mp located
  rw [joined, walk_concat_eq_ok_iff] at walked
  obtain ⟨inside, _, _, _, reached⟩ := walked
  exact ⟨inside, reached⟩

/-- A file in a directory is found in the place of the directory. -/
theorem locate_join (nonempty : directory ≠ []) (slashless : '/' ∉ name)
    (located : tree.locate (Path.join directory name) = .ok place) :
    ∃ inside, tree.locate directory = .ok inside ∧ tree.get? inside = some .directory ∧
      place = follow inside name := by
  obtain ⟨base, joined, parts⟩ := Path.names_join slashless directory
  obtain ⟨usable, short, walked⟩ := locate_eq_ok_iff.mp located
  rw [joined, Path.isUsable, List.all_append, Bool.and_eq_true] at usable
  rw [Path.isLong_names, decide_eq_false_iff_not, Nat.not_lt] at short
  rw [joined, origin, Path.isAbsolute_join nonempty, ← origin, walk_concat_eq_ok_iff] at walked
  obtain ⟨inside, walked, found, _, reached⟩ := walked
  refine ⟨inside, locate_eq_ok_iff.mpr ⟨?_, ?_, ?_⟩, found, reached⟩
  · rcases parts with bare | slash
    · rw [bare]
      exact usable.1
    · rw [slash, Path.isUsable, List.all_append, usable.1]
      rfl
  · rw [Path.isLong_names, decide_eq_false_iff_not, Nat.not_lt]
    exact Nat.le_trans (Path.length_encode_join directory name) short
  · rcases parts with bare | slash
    · rw [bare]
      exact walked
    · rw [slash, walk_concat_eq_ok_iff]
      exact ⟨inside, walked, found, rfl, rfl⟩

/-- Slashes at the end of a path lead nowhere, but a path that is too long with them is refused. -/
theorem createDirectories_of_long (tree : FileTree)
    (usable : Path.isUsable (Path.names path) = true) (long : 4095 < (Utf8.encode path).length) :
    tree.createDirectories path = (tree, some .nameTooLong) := by
  have refused : screen (Path.names path) = .error .nameTooLong := by
    rw [screen, usable, Path.isLong_names, decide_eq_true long]
    rfl
  have unmade : tree.ensureDirectory (tree.origin path) (Path.names path) = .error .nameTooLong := by
    rw [ensureDirectory, makeDirectory, refused]
    rfl
  rw [createDirectories]
  cases listed : (Path.names path).reverse with
  | nil =>
      rw [List.reverse_eq_nil_iff.mp listed] at refused
      cases refused
  | cons name above =>
      rw [← List.reverse_eq_iff.mpr listed.symm] at unmade
      rw [ensureDirectories, unmade]

theorem follow_name (plain : Path.stays name = false) (other : name ≠ Path.parent)
    (location : Location) : follow location name = location ++ [name] := by
  rw [follow, if_neg (by simp [plain]), if_neg other]

end FileTree

end TapeFlow
