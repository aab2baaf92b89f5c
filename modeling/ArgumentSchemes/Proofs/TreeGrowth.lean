import ArgumentSchemes.Files.Read
import ArgumentSchemes.Files.Write
import ArgumentSchemes.Proofs.PathSteps

/-!
# Trees that only gain directories

A tree **grows** into another when the second has everything that the first has, at the same
locations, and beyond that nothing but directories (`Tree.Grows`). What a path leads to in a tree it
leads to in every tree that this one grows into (`Site.lookup_of_grows`).

Every step that prepares the writing of a file makes directories, one after the other, each in a
directory that is there (`Tree.Gains`), and so the tree grows. Hence a write that fails only makes
the tree grow (`Site.grows_of_writeAtomic_eq_error`), and one that succeeds then puts a file at its
destination (`Site.exists_of_writeAtomic_eq_ok`).
-/

namespace ArgumentSchemes.Files

/-! ### Growth -/

namespace Tree

/-- The content of the file at a location, if a file stands there. -/
def content? (t : Tree) (l : Location) : Option (List UInt8) :=
  match t.get? l with
  | some (.file content) => some content
  | _ => none

/-- In the second tree the same stands at the location, or a directory where nothing stood. -/
def GrowsAt (t t' : Tree) (l : Location) : Prop :=
  t'.get? l = t.get? l ∨ t.get? l = none ∧ t'.get? l = some .directory

/-- Nothing but directories is new in the second tree. -/
def Grows (t t' : Tree) : Prop := ∀ l, t.GrowsAt t' l

theorem GrowsAt.trans {t t' t'' : Tree} {l : Location} (h : t.GrowsAt t' l)
    (h' : t'.GrowsAt t'' l) : t.GrowsAt t'' l := by
  rcases h, h' with ⟨heq | ⟨hnone, hdir⟩, heq' | ⟨hnone', hdir'⟩⟩
  · exact .inl (heq'.trans heq)
  · exact .inr ⟨heq ▸ hnone', hdir'⟩
  · exact .inr ⟨hnone, heq'.trans hdir⟩
  · exact .inr ⟨hnone, hdir'⟩

namespace Grows

theorem refl (t : Tree) : t.Grows t := fun _ => .inl rfl

theorem trans {t t' t'' : Tree} (h : t.Grows t') (h' : t'.Grows t'') : t.Grows t'' :=
  fun l => (h l).trans (h' l)

/-- A directory at a free location makes the tree grow. -/
theorem set_directory {t : Tree} {l : Location} (h : t.get? l = none) :
    t.Grows (t.set l .directory) := by
  intro m
  by_cases hm : m = l
  · subst hm
    have hne : m ≠ [] := by
      rintro rfl
      simp [get?] at h
    exact .inr ⟨h, t.get?_set_self hne _⟩
  · exact .inl (t.get?_set_of_ne hm _)

theorem get?_eq_some {t t' : Tree} (h : t.Grows t') {l : Location} {n : Node}
    (hn : t.get? l = some n) : t'.get? l = some n := by
  rcases h l with heq | ⟨hnone, -⟩
  · rw [heq, hn]
  · rw [hn] at hnone
    cases hnone

/-- What is not a directory was there before. -/
theorem get?_eq_some_of_ne {t t' : Tree} (h : t.Grows t') {l : Location} {n : Node}
    (hn : t'.get? l = some n) (hne : n ≠ .directory) : t.get? l = some n := by
  rcases h l with heq | ⟨-, hdir⟩
  · rw [← heq, hn]
  · rw [hn] at hdir
    exact absurd (Option.some.inj hdir) hne

theorem content?_eq {t t' : Tree} (h : t.Grows t') (l : Location) :
    t'.content? l = t.content? l := by
  rcases h l with heq | ⟨hnone, hdir⟩
  · rw [content?, heq, content?]
  · rw [content?, hdir, content?, hnone]

end Grows

theorem content?_set_self (t : Tree) {l : Location} (h : l ≠ []) (content : List UInt8) :
    (t.set l (.file content)).content? l = some content := by
  rw [content?, t.get?_set_self h]

/-- Putting a file where it stands already changes nothing. -/
theorem grows_set_of_content? {t t' : Tree} (h : t.Grows t') {l : Location} (hne : l ≠ [])
    {content : List UInt8} (hl : t.content? l = some content) :
    t.Grows (t'.set l (.file content)) := by
  intro m
  by_cases hm : m = l
  · subst hm
    rw [content?] at hl
    split at hl
    · next hfile =>
      obtain rfl := Option.some.inj hl
      exact .inl ((t'.get?_set_self hne _).trans hfile.symm)
    · cases hl
  · rw [GrowsAt, t'.get?_set_of_ne hm]
    exact h m

/-- In the second tree a file with this content is new at the location, where no file with the same
content stood. Elsewhere nothing but directories is new. -/
structure Replaces (t t' : Tree) (l : Location) (content : List UInt8) : Prop where
  new : t'.content? l = some content
  differs : t.content? l ≠ some content
  elsewhere : ∀ m, m ≠ l → t.GrowsAt t' m

/-- A file that is put into a tree that has grown is a new one, unless it stands there already. -/
theorem grows_or_replaces_set {t t' : Tree} (h : t.Grows t') {l : Location} (hne : l ≠ [])
    (content : List UInt8) :
    (t.content? l = some content ∧ t.Grows (t'.set l (.file content))) ∨
      t.Replaces (t'.set l (.file content)) l content := by
  by_cases hl : t.content? l = some content
  · exact .inl ⟨hl, grows_set_of_content? h hne hl⟩
  · refine .inr ⟨content?_set_self t' hne content, hl, fun m hm => ?_⟩
    rw [GrowsAt, t'.get?_set_of_ne hm]
    exact h m

/-- A replaced file stays when the tree grows. -/
theorem Replaces.trans_grows {t t' t'' : Tree} {l : Location} {content : List UInt8}
    (h : t.Replaces t' l content) (h' : t'.Grows t'') : t.Replaces t'' l content where
  new := (h'.content?_eq l).trans h.new
  differs := h.differs
  elsewhere := fun m hm => (h.elsewhere m hm).trans (h' m)

/-- The second tree comes from the first by making directories, each with a name that an entry can
have, at a free place in a directory. -/
inductive Gains (t : Tree) : Tree → Prop
  | refl : Gains t t
  | make {t' : Tree} {l : Location} {n : String} : Gains t t' → t'.get? l = some .directory →
      IsName n → t'.get? (l ++ [n]) = none → Gains t (t'.set (l ++ [n]) .directory)

namespace Gains

theorem trans {t t' t'' : Tree} (h : t.Gains t') (h' : t'.Gains t'') : t.Gains t'' := by
  induction h' with
  | refl => exact h
  | make _ hdir hname hfree ih => exact .make ih hdir hname hfree

theorem grows {t t' : Tree} (h : t.Gains t') : t.Grows t' := by
  induction h with
  | refl => exact .refl t
  | make _ _ _ hfree ih => exact ih.trans (.set_directory hfree)

end Gains

end Tree

/-! ### Paths in a tree that has grown -/

section Following

variable {t t' : Tree} {through : Bool} {allowed : Location → Bool}

/-- Steps lead where they led before when links do. -/
theorem followWith_of_grows (h : t.Grows t')
    {onLink onLink' : Location → Path → List Component → Except IoFault Location}
    (hlink : ∀ l target rest m, onLink l target rest = .ok m → onLink' l target rest = .ok m)
    {l m : Location} {steps : List Component}
    (hm : followWith t through allowed onLink l steps = .ok m) :
    followWith t' through allowed onLink' l steps = .ok m := by
  induction steps generalizing l with
  | nil => exact hm
  | cons step rest ih =>
    cases step with
    | root => exact ih hm
    | here =>
      rw [followWith] at hm ⊢
      split at hm
      · next hdir =>
        rw [if_pos (h.get?_eq_some hdir)]
        exact ih hm
      · cases hm
    | up =>
      rw [followWith] at hm ⊢
      split at hm
      · next hdir =>
        rw [if_pos (h.get?_eq_some hdir)]
        exact ih hm
      · cases hm
    | name n =>
      rw [followWith] at hm ⊢
      split at hm
      · next hdir =>
        rw [if_pos (h.get?_eq_some hdir)]
        split at hm
        · cases hm
        · next hfits =>
          rw [if_neg hfits]
          rcases hnode : t.get? (l ++ [n]) with _ | node
          · rw [hnode] at hm
            cases hm
          · rw [hnode] at hm
            rw [h.get?_eq_some hnode]
            cases node with
            | file content => exact ih hm
            | directory => exact ih hm
            | link target =>
              -- the last step may end at the link itself
              simp only at hm ⊢
              split at hm
              · next hlast =>
                rw [if_pos hlast]
                exact hm
              · next hlast =>
                rw [if_neg hlast]
                exact hlink _ _ _ _ hm
      · cases hm

theorem followSteps_of_grows (h : t.Grows t') {links : Nat} {l m : Location}
    {steps : List Component} (hm : followSteps t through allowed links l steps = .ok m) :
    followSteps t' through allowed links l steps = .ok m := by
  induction links generalizing l steps m with
  | zero => exact followWith_of_grows h (fun _ _ _ _ hfault => hfault) hm
  | succ links ih => exact followWith_of_grows h (fun _ _ _ _ hlink => ih hlink) hm

end Following

namespace Site

/-- The site after its tree has changed. -/
def withTree (s : Site) (t : Tree) : Site := { s with tree := t }

@[simp] theorem cwd_withTree (s : Site) (t : Tree) : (s.withTree t).cwd = s.cwd := rfl

theorem follow_of_grows {s : Site} {t : Tree} (h : s.tree.Grows t) {p : Path} {through : Bool}
    {l : Location} (hl : s.follow p through = .ok l) :
    (s.withTree t).follow p through = .ok l := by
  rw [follow] at hl ⊢
  split at hl
  · cases hl
  · exact followSteps_of_grows h hl

theorem lookup_eq_ok_iff {s : Site} {p : Path} {l : Location} {n : Node} :
    s.lookup p = .ok (l, n) ↔ s.follow p true = .ok l ∧ s.tree.get? l = some n := by
  rw [lookup]
  constructor
  · intro h
    split at h
    · cases h
    · next hl =>
      split at h
      · cases h
      · next hn =>
        obtain ⟨rfl, rfl⟩ := Prod.mk.inj (Except.ok.inj h)
        exact ⟨hl, hn⟩
  · rintro ⟨hl, hn⟩
    simp only [hl, hn]

/-- A path leads to what it led to before. -/
theorem lookup_of_grows {s : Site} {t : Tree} (h : s.tree.Grows t) {p : Path} {l : Location}
    {n : Node} (hp : s.lookup p = .ok (l, n)) : (s.withTree t).lookup p = .ok (l, n) := by
  obtain ⟨hl, hn⟩ := lookup_eq_ok_iff.mp hp
  exact lookup_eq_ok_iff.mpr ⟨follow_of_grows h hl, h.get?_eq_some hn⟩

theorem readBytes_eq_ok_iff {s : Site} {p : Path} {content : List UInt8} :
    s.readBytes p = .ok content ↔ ∃ l, s.lookup p = .ok (l, .file content) := by
  rw [readBytes]
  constructor
  · intro h
    split at h
    · cases h
    · next l _ hfile =>
      obtain rfl := Except.ok.inj h
      exact ⟨l, hfile⟩
    · cases h
    · cases h
  · rintro ⟨l, hfile⟩
    rw [hfile]

theorem readText_eq_ok_iff {s : Site} {p : Path} {text : String} :
    s.readText p = .ok text ↔
      ∃ content, s.readBytes p = .ok content ∧ Text.decode? content = some text := by
  rw [readText]
  rcases s.readBytes p with fault | content
  · simp
  · rcases hdecode : Text.decode? content with _ | text' <;> simp [hdecode]

/-- What is read at a path is what was read before. -/
theorem readBytes_of_grows {s : Site} {t : Tree} (h : s.tree.Grows t) {p : Path}
    {content : List UInt8} (hp : s.readBytes p = .ok content) :
    (s.withTree t).readBytes p = .ok content := by
  obtain ⟨l, hl⟩ := readBytes_eq_ok_iff.mp hp
  exact readBytes_eq_ok_iff.mpr ⟨l, lookup_of_grows h hl⟩

/-! ### Writing -/

/-- The place that a path gives to something new is in a directory, to which all steps but the last
one lead. -/
theorem place_eq_ok {s : Site} {p : Path} {pl : Place} (h : s.place p = .ok pl) :
    p.refusal? = none ∧
      followSteps s.tree true anywhere maxLinks s.cwd p.rawSteps.dropLast = .ok pl.directory ∧
      s.tree.get? pl.directory = some .directory ∧
      ∀ n, pl.name = some n → p.rawSteps = p.rawSteps.dropLast ++ [.name n] := by
  rw [place] at h
  split at h
  · cases h
  · next hrefusal =>
    simp only at h
    split at h
    · cases h
    · next l hl =>
      split at h
      · next hdir =>
        obtain rfl := Except.ok.inj h
        refine ⟨hrefusal, hl, hdir, fun n hn => ?_⟩
        split at hn
        · next m hlast =>
          obtain rfl := Option.some.inj hn
          obtain ⟨steps, hsteps⟩ := List.getLast?_eq_some_iff.mp hlast
          simp [hsteps]
        · cases hn
      · cases h

/-- A directory is made where nothing stands, under the name that its path ends in. -/
theorem makeDirectory_eq_ok {s : Site} {p : Path} {t : Tree} (h : s.makeDirectory p = .ok t) :
    ∃ directory n, s.place p = .ok ⟨directory, some n⟩ ∧ n.utf8ByteSize ≤ maxNameSize ∧
      s.tree.get? (directory ++ [n]) = none ∧ t = s.tree.set (directory ++ [n]) .directory := by
  rw [makeDirectory] at h
  split at h
  · cases h
  · next pl hplace =>
    obtain ⟨directory, name⟩ := pl
    split at h
    · cases h
    · next n hn =>
      obtain rfl : name = some n := hn
      split at h
      · cases h
      · next hfits =>
        split at h
        · cases h
        · next hfree =>
          exact ⟨directory, n, hplace, Nat.le_of_not_lt hfits,
            Option.not_isSome_iff_eq_none.mp hfree, (Except.ok.inj h).symm⟩

/-- A new directory is in a directory, where nothing stood. -/
theorem gains_of_makeDirectory {s : Site} {p : Path} {t : Tree}
    (h : s.makeDirectory p = .ok t) : s.tree.Gains t := by
  obtain ⟨directory, n, hplace, hfits, hfree, rfl⟩ := makeDirectory_eq_ok h
  obtain ⟨hrefusal, -, hdir, hname⟩ := place_eq_ok hplace
  have hmem : .name n ∈ p.rawSteps := by
    rw [hname n rfl]
    simp
  have hnul := (Path.senseless?_eq_none_iff.mp (Path.refusal?_eq_none_iff.mp hrefusal).1).1
  exact .make .refl hdir (Path.isName_of_mem_rawSteps hmem hnul hfits) hfree

theorem gains_of_makeDirectoryOrKeep {s : Site} {p : Path} {t : Tree}
    (h : s.makeDirectoryOrKeep p = .ok t) : s.tree.Gains t := by
  rw [makeDirectoryOrKeep] at h
  split at h
  · next hmade =>
    obtain rfl := Except.ok.inj h
    exact gains_of_makeDirectory hmade
  · split at h
    · obtain rfl := Except.ok.inj h
      exact .refl
    · cases h

/-- Creating directories makes directories only, also when it fails on the way. -/
theorem gains_makeDirectories (s : Site) (depth : Nat) (p : Path) :
    s.tree.Gains (s.makeDirectories depth p).2 := by
  induction depth generalizing s p with
  | zero =>
    rw [makeDirectories]
    split
    · next hmade => exact gains_of_makeDirectoryOrKeep hmade
    · exact .refl
  | succ depth ih =>
    rw [makeDirectories]
    split
    · exact .refl
    · split
      · next hmade => exact gains_of_makeDirectoryOrKeep hmade
      · next parent _ _ =>
        -- the directories above are created first, and stay when this one fails
        have habove := ih s parent
        split
        · next heq =>
          rw [heq] at habove
          exact habove
        · next heq =>
          rw [heq] at habove
          split
          · next hmade => exact habove.trans (gains_of_makeDirectoryOrKeep hmade)
          · exact habove
      · exact .refl

theorem gains_ensureDirectory (s : Site) (p : Path) :
    s.tree.Gains (s.ensureDirectory p).2 := by
  have hmade := s.gains_makeDirectories (p.components.length + 1) p
  rw [ensureDirectory]
  split
  · exact .refl
  · split
    · next heq => exact (congrArg Prod.snd heq : _ = _) ▸ hmade
    · next heq => exact (congrArg Prod.snd heq : _ = _) ▸ hmade

/-- The site once the directory that a file of the given path is written to is there. -/
def prepared (s : Site) (p : Path) : Site :=
  s.withTree (s.ensureDirectory (directoryOf p)).2

/-- The **destination** of a file of the given path: the location of its name in its directory, once
the directory is there. -/
def destination? (s : Site) (p : Path) : Option Location :=
  match (s.prepared p).place p with
  | .ok ⟨directory, some n⟩ => some (directory ++ [n])
  | _ => none

@[simp] theorem cwd_prepared (s : Site) (p : Path) : (s.prepared p).cwd = s.cwd :=
  s.cwd_withTree _

theorem gains_prepared (s : Site) (p : Path) : s.tree.Gains (s.prepared p).tree :=
  s.gains_ensureDirectory (directoryOf p)

theorem grows_prepared (s : Site) (p : Path) : s.tree.Grows (s.prepared p).tree :=
  (s.gains_prepared p).grows

/-- A file is put where no directory stands, under the name that its path ends in. -/
theorem replaceFile_eq_ok {s : Site} {p : Path} {content : List UInt8} {t : Tree}
    (h : s.replaceFile p content = .ok t) :
    ∃ directory n, s.place p = .ok ⟨directory, some n⟩ ∧ n.utf8ByteSize ≤ maxNameSize ∧
      p.endsInSlash = false ∧ s.tree.get? (directory ++ [n]) ≠ some .directory ∧
      t = s.tree.set (directory ++ [n]) (.file content) := by
  rw [replaceFile] at h
  split at h
  · cases h
  · cases h
  · next pl hplace =>
    obtain ⟨directory, name⟩ := pl
    split at h
    · cases h
    · next n hname =>
      obtain rfl : name = some n := hname
      split at h
      · cases h
      · next hsize =>
        split at h
        · cases h
        · next hslash =>
          split at h
          · cases h
          · next hfree =>
            exact ⟨directory, n, hplace, Nat.le_of_not_lt hsize, by simpa using hslash, hfree,
              (Except.ok.inj h).symm⟩

/-- A write that fails leaves nothing but directories behind. -/
theorem grows_of_writeAtomic_eq_error {s : Site} {p : Path} {content : List UInt8}
    {fault : WriteFault} {t : Tree} (h : s.writeAtomic p content = (.error fault, t)) :
    s.tree.Grows t := by
  have hprepared := (s.gains_ensureDirectory (directoryOf p)).grows
  unfold writeAtomic at h
  simp only at h
  split at h
  · next heq =>
    rw [heq] at hprepared
    exact (Prod.mk.inj h).2 ▸ hprepared
  · next heq =>
    rw [heq] at hprepared
    split at h
    · exact (Prod.mk.inj h).2 ▸ hprepared
    · split at h
      · exact (Prod.mk.inj h).2 ▸ hprepared
      · cases (Prod.mk.inj h).1

/-- A write that succeeds puts the file in its place once its directory is there. -/
theorem replaceFile_of_writeAtomic {s : Site} {p : Path} {content : List UInt8} {t : Tree}
    (h : s.writeAtomic p content = (.ok (), t)) :
    (s.prepared p).replaceFile p content = .ok t := by
  unfold writeAtomic at h
  simp only at h
  split at h
  · cases (Prod.mk.inj h).1
  · next t' heq =>
    have hsite : s.prepared p = { s with tree := t' } := by rw [prepared, heq, withTree]
    split at h
    · cases (Prod.mk.inj h).1
    · split at h
      · cases (Prod.mk.inj h).1
      · next hreplaced =>
        rw [hsite, hreplaced, (Prod.mk.inj h).2]

/-- A write that succeeds puts the file at its destination, in a tree that has grown. -/
theorem exists_of_writeAtomic_eq_ok {s : Site} {p : Path} {content : List UInt8} {t : Tree}
    (h : s.writeAtomic p content = (.ok (), t)) :
    ∃ l, s.destination? p = some l ∧ l ≠ [] ∧ t = (s.prepared p).tree.set l (.file content) := by
  obtain ⟨directory, n, hplace, -, -, -, rfl⟩ := replaceFile_eq_ok (replaceFile_of_writeAtomic h)
  refine ⟨directory ++ [n], ?_, by simp, rfl⟩
  rw [destination?, hplace]

end Site

end ArgumentSchemes.Files
