import ArgumentSchemes.Proofs.LinkedPaths

/-!
# What writing a file in one shot changes

A write creates the directories that are missing, and then puts a file in the place of one entry.
Nothing else changes, and when it fails nothing but new directories remains. The directories that
are new are those that a path above leads to (`Site.newAbove_ensureDirectory`).

The content first goes to a temporary file in the same directory, and that file is moved
(`Site.stagedWrite`). A temporary file is in no path's way, for ways go through directories and
links: where the file is moved to does not depend on it (`Site.destinationIn_withTree`). So it makes
no difference to the tree in the end.

Main statement: a write changes one entry or fails, and takes its temporary file away
(`Site.write_touches_one_entry`).
-/

namespace ArgumentSchemes.Files

/-! ### Paths above -/

/-- The path itself, that of its directory, and so on. -/
inductive Path.AtOrAbove (p : Path) : Path → Prop
  | self : AtOrAbove p p
  | parent {q r : Path} : AtOrAbove p q → q.parent? = some r → AtOrAbove p r

theorem Path.AtOrAbove.of_parent {p q r : Path} (hq : p.parent? = some q) (h : q.AtOrAbove r) :
    p.AtOrAbove r := by
  induction h with
  | self => exact .parent .self hq
  | parent _ hparent ih => exact .parent ih hparent

namespace Site

variable {s : Site} {p : Path} {t : Tree} {content : List UInt8}

/-- A place is where all steps of a path but the last lead. -/
theorem exists_leads_of_place {pl : Place} (h : s.place p = .ok pl) :
    ∃ j, Leads s.tree anywhere true maxLinks s.cwd p.rawSteps.dropLast j pl.directory :=
  followSteps_eq_ok_iff_leads.mp (place_eq_ok h).2.1

/-- A path leads to what is in its place, if that is a directory. -/
theorem lookup_of_place {directory : Location} {n : String}
    (h : s.place p = .ok ⟨directory, some n⟩) (hsize : n.utf8ByteSize ≤ maxNameSize)
    (hdir : s.tree.get? (directory ++ [n]) = some .directory) :
    s.lookup p = .ok (directory ++ [n], .directory) := by
  obtain ⟨hrefusal, -, hdirectory, hname⟩ := place_eq_ok h
  obtain ⟨j, hleads⟩ := exists_leads_of_place h
  have henters : Enters s.tree anywhere directory n .directory := ⟨hdirectory, hsize, rfl, hdir⟩
  have hslash : Leads s.tree anywhere true j (directory ++ [n])
      (if p.endsInSlash then [.here] else []) j (directory ++ [n]) := by
    split
    · exact .here hdir .done
    · exact .done
  refine lookup_eq_ok_iff.mpr ⟨follow_eq_ok_iff_leads.mpr ⟨hrefusal, j, ?_⟩, hdir⟩
  rw [Path.steps, hname n rfl, List.append_assoc]
  exact hleads.append (.entry henters (by simp) hslash) (by simp)

/-- A path gives the same place when directories and links stay. -/
theorem place_of_keepsWays {pl : Place} (hkeeps : s.tree.KeepsWays t) (h : s.place p = .ok pl) :
    (s.withTree t).place p = .ok pl := by
  obtain ⟨hrefusal, hfollow, hdir, -⟩ := place_eq_ok h
  have hroot : .root ∉ p.rawSteps.dropLast.tail := by
    intro hmem
    rw [List.tail_dropLast] at hmem
    refine p.root_not_mem_tail_steps ?_
    rw [Path.steps]
    rcases hraw : p.rawSteps with _ | ⟨step, steps⟩
    · simp [hraw] at hmem
    · rw [hraw] at hmem
      exact List.mem_append_left _ (List.mem_of_mem_dropLast hmem)
  obtain ⟨j, hleads⟩ := followSteps_eq_ok_iff_leads.mp hfollow
  have hfollow' := (hleads.of_keepsWays hkeeps hroot hdir).followSteps_eq
  have hdir' := hkeeps _ _ (by simp) hdir
  rw [place] at h ⊢
  simp only [hrefusal, hfollow, hdir, if_true, cwd_withTree] at h ⊢
  simp only [withTree, hfollow', hdir', if_true]
  exact h

/-! ### New directories -/

/-- Where something is new, a path above leads to a directory. -/
def NewAbove (s : Site) (p : Path) (t : Tree) : Prop :=
  ∀ m, s.tree.get? m = none → t.get? m ≠ none →
    ∃ q, p.AtOrAbove q ∧ (s.withTree t).lookup q = .ok (m, .directory)

theorem NewAbove.refl : s.NewAbove p s.tree := fun _ hnone hsome => absurd hnone hsome

theorem newAbove_of_makeDirectory (h : s.makeDirectory p = .ok t) : s.NewAbove p t := by
  have hgrows := (gains_of_makeDirectory h).grows
  obtain ⟨directory, n, hplace, hsize, -, rfl⟩ := makeDirectory_eq_ok h
  intro m hnone hsome
  obtain rfl : m = directory ++ [n] := by
    by_contra hne
    rw [s.tree.get?_set_of_ne hne] at hsome
    exact hsome hnone
  refine ⟨p, .self, ?_⟩
  exact lookup_of_place (place_of_keepsWays hgrows.keepsWays hplace) hsize
    (s.tree.get?_set_self (by simp) _)

theorem NewAbove.trans {t' : Tree} (h : s.NewAbove p t) (hgrows : t.Grows t')
    (h' : (s.withTree t).NewAbove p t') : s.NewAbove p t' := by
  intro m hnone hsome
  by_cases hm : t.get? m = none
  · exact h' m hm hsome
  · obtain ⟨q, habove, hq⟩ := h m hnone hm
    exact ⟨q, habove, lookup_of_grows (s := s.withTree t) hgrows hq⟩

theorem NewAbove.of_parent {q : Path} (hq : p.parent? = some q) (h : s.NewAbove q t) :
    s.NewAbove p t := by
  intro m hnone hsome
  obtain ⟨r, habove, hr⟩ := h m hnone hsome
  exact ⟨r, .of_parent hq habove, hr⟩

theorem newAbove_of_makeDirectoryOrKeep (h : s.makeDirectoryOrKeep p = .ok t) :
    s.NewAbove p t := by
  rw [makeDirectoryOrKeep] at h
  split at h
  · next hmade =>
    obtain rfl := Except.ok.inj h
    exact newAbove_of_makeDirectory hmade
  · split at h
    · obtain rfl := Except.ok.inj h
      exact .refl
    · cases h

theorem newAbove_makeDirectories (s : Site) (depth : Nat) (p : Path) :
    s.NewAbove p (s.makeDirectories depth p).2 := by
  induction depth generalizing s p with
  | zero =>
    rw [makeDirectories]
    split
    · next hmade => exact newAbove_of_makeDirectoryOrKeep hmade
    · exact .refl
  | succ depth ih =>
    rw [makeDirectories]
    split
    · exact .refl
    · split
      · next hmade => exact newAbove_of_makeDirectoryOrKeep hmade
      · next parent _ hparent =>
        -- the directories above are made first, and stay when this one cannot be made
        have habove := (ih s parent).of_parent hparent
        split
        · next heq =>
          rw [heq] at habove
          exact habove
        · next heq =>
          rw [heq] at habove
          split
          · next hmade =>
            exact habove.trans (gains_of_makeDirectoryOrKeep hmade).grows
              (newAbove_of_makeDirectoryOrKeep hmade)
          · exact habove
      · exact .refl

theorem newAbove_ensureDirectory (s : Site) (p : Path) :
    s.NewAbove p (s.ensureDirectory p).2 := by
  have hmade := s.newAbove_makeDirectories (p.components.length + 1) p
  rw [ensureDirectory]
  split
  · exact .refl
  · split
    · next heq => exact (congrArg Prod.snd heq : _ = _) ▸ hmade
    · next heq => exact (congrArg Prod.snd heq : _ = _) ▸ hmade

theorem withTree_tree_prepared (s : Site) (p : Path) :
    s.withTree (s.prepared p).tree = s.prepared p := by
  simp only [prepared, withTree]

theorem withTree_prepared (s : Site) (p : Path) (t : Tree) :
    (s.prepared p).withTree t = s.withTree t := by
  simp only [prepared, withTree]

/-- **The new directories** of a write are those that its directory and the paths above that lead
to. -/
theorem newAbove_prepared (s : Site) (p : Path) :
    s.NewAbove (directoryOf p) (s.prepared p).tree := by
  have hnew := s.newAbove_ensureDirectory (directoryOf p)
  simp only [prepared, withTree]
  exact hnew

/-! ### The entry that is written -/

/-- The tree comes from that of the site by writing the content to the place of the path, which is
the entry of the name in the directory, and to nothing else. -/
structure OneEntry (s : Site) (p : Path) (content : List UInt8) (directory : Location) (n : String)
    (t : Tree) : Prop where
  place : (s.prepared p).place p = .ok ⟨directory, some n⟩
  /-- What the path itself led to, if it did, is the entry: a link there is not followed. -/
  itself : ∀ l, s.follow p false = .ok l → l = directory ++ [n]
  within : t.get? directory = some .directory
  file : t.get? (directory ++ [n]) = some (.file content)
  elsewhere : ∀ m, m ≠ directory ++ [n] → s.tree.GrowsAt t m
  above : ∀ m, m ≠ directory ++ [n] → s.tree.get? m = none → t.get? m ≠ none →
    ∃ q, (directoryOf p).AtOrAbove q ∧ (s.prepared p).lookup q = .ok (m, .directory)
  /-- The path is read as the content, unless its way goes through a link that was replaced. -/
  reads : (∀ target, s.tree.get? (directory ++ [n]) ≠ some (.link target)) ∨
    (s.withTree t).place p = .ok ⟨directory, some n⟩ → (s.withTree t).readBytes p = .ok content

/-- Apart from its entry and what was below that, a write adds nothing but directories. -/
theorem OneEntry.grows_remove {directory : Location} {n : String}
    (h : s.OneEntry p content directory n t) :
    (s.tree.remove (directory ++ [n])).Grows (t.remove (directory ++ [n])) := by
  intro m
  by_cases hm : directory ++ [n] <+: m
  · refine .inl ?_
    rw [Tree.get?_remove_of_prefix _ (by simp) hm, Tree.get?_remove_of_prefix _ (by simp) hm]
  · have hne : m ≠ directory ++ [n] := fun heq => hm (heq ▸ List.prefix_rfl)
    rw [Tree.GrowsAt, Tree.get?_remove_of_not_prefix _ hm, Tree.get?_remove_of_not_prefix _ hm]
    exact h.elsewhere m hne

theorem steps_of_place {directory : Location} {n : String}
    (hplace : s.place p = .ok ⟨directory, some n⟩) (hslash : p.endsInSlash = false) :
    p.steps = p.rawSteps.dropLast ++ [.name n] := by
  rw [Path.steps, hslash, ← (place_eq_ok hplace).2.2.2 n rfl]
  simp

/-- What a path leads to, not through a link at its end, is in its place. -/
theorem eq_of_follow {directory l : Location} {n : String}
    (hplace : s.place p = .ok ⟨directory, some n⟩) (hslash : p.endsInSlash = false)
    (h : s.follow p false = .ok l) : l = directory ++ [n] := by
  obtain ⟨-, j, hleads⟩ := follow_eq_ok_iff_leads.mp h
  have hfollow := (place_eq_ok hplace).2.1
  rw [steps_of_place hplace hslash] at hleads
  obtain ⟨i, l', hfront, hback⟩ := hleads.split (by simp)
  obtain rfl : l' = directory := Except.ok.inj (hfront.followSteps_eq.symm.trans hfollow)
  cases hback with
  | entry _ _ hdone =>
    cases hdone
    rfl
  | link _ hrest _ => simp at hrest
  | stop _ _ => rfl

/-- The file in the place of a path is what is read there. -/
theorem readBytes_of_place {directory : Location} {n : String}
    (hplace : s.place p = .ok ⟨directory, some n⟩) (hsize : n.utf8ByteSize ≤ maxNameSize)
    (hslash : p.endsInSlash = false)
    (hfile : s.tree.get? (directory ++ [n]) = some (.file content)) :
    s.readBytes p = .ok content := by
  obtain ⟨hrefusal, -, hdir, -⟩ := place_eq_ok hplace
  obtain ⟨j, hleads⟩ := exists_leads_of_place hplace
  refine readBytes_eq_ok_iff.mpr ⟨directory ++ [n], lookup_eq_ok_iff.mpr
    ⟨follow_eq_ok_iff_leads.mpr ⟨hrefusal, j, ?_⟩, hfile⟩⟩
  rw [steps_of_place hplace hslash]
  exact hleads.append (.entry ⟨hdir, hsize, rfl, hfile⟩ (by simp) .done) (by simp)

/-- **A write that succeeds** changes one entry. -/
theorem oneEntry_of_writeAtomic (h : s.writeAtomic p content = (.ok (), t)) :
    ∃ directory n, s.OneEntry p content directory n t := by
  obtain ⟨directory, n, hplace, hsize, hslash, hfree, rfl⟩ :=
    replaceFile_eq_ok (replaceFile_of_writeAtomic h)
  have hgrows := s.grows_prepared p
  have hdir := (place_eq_ok hplace).2.2.1
  have hne : directory ≠ directory ++ [n] := by simp
  have hfile := (s.prepared p).tree.get?_set_self (l := directory ++ [n]) (by simp) (.file content)
  refine ⟨directory, n, hplace, fun l hl => ?_, ?_, hfile, fun m hm => ?_, fun m hm => ?_, ?_⟩
  · have hl' := follow_of_grows hgrows hl
    rw [withTree_tree_prepared] at hl'
    exact eq_of_follow hplace hslash hl'
  · rw [(s.prepared p).tree.get?_set_of_ne hne, hdir]
  · rw [Tree.GrowsAt, (s.prepared p).tree.get?_set_of_ne hm]
    exact hgrows m
  · have hnew := s.newAbove_prepared p m
    rw [withTree_tree_prepared] at hnew
    rw [(s.prepared p).tree.get?_set_of_ne hm]
    exact hnew
  · intro hplace'
    refine readBytes_of_place (hplace'.elim (fun hlink => ?_) id) hsize hslash hfile
    -- no directory and no link is replaced, so the way of the path stays
    rw [← withTree_prepared s p]
    refine place_of_keepsWays (fun m node hnode hm => ?_) hplace
    rw [(s.prepared p).tree.get?_set_of_ne, hm]
    rintro rfl
    cases node with
    | file content' => exact hnode content' rfl
    | directory => exact hfree hm
    | link target => exact hlink target (hgrows.get?_eq_some_of_ne hm (by simp))

end Site

/-! ### The temporary file -/

/-- The tree without what stands at the location. -/
def Tree.unlink (t : Tree) (l : Location) : Tree := ⟨t.nodes.filter (·.1 != l)⟩

theorem Tree.get?_unlink_self (t : Tree) {l : Location} (h : l ≠ []) :
    (t.unlink l).get? l = none := by
  simp [get?, unlink, h]

theorem Tree.get?_unlink_of_ne (t : Tree) {l m : Location} (h : m ≠ l) :
    (t.unlink l).get? m = t.get? m := by
  have hset : (t.set l .directory).get? m = (t.unlink l).get? m := by
    simp [get?, set, unlink, Ne.symm h]
  rw [← hset, t.get?_set_of_ne h]

/-- How the writing of a file goes: the name that its temporary file is given, and after how many
bytes and by which fault the writing stops, if it does. -/
structure Staging where
  name : String
  stop : Option (Nat × IoFault) := none

namespace Site

variable {s : Site} {p : Path} {t : Tree} {content : List UInt8}

/-- The location that a file of the given path is moved to. -/
def destinationIn (s : Site) (p : Path) : Except IoFault Location :=
  match s.place p with
  | .error .nulInPath => .error .invalidPath
  | .error fault => .error fault
  | .ok pl =>
    match pl.name with
    | none => .error .busy
    | some n =>
      if maxNameSize < n.utf8ByteSize then .error .nameTooLong
      else if p.endsInSlash then .error .notDirectory
      else if s.tree.get? (pl.location n) = some .directory then .error .isDirectory
      else .ok (pl.location n)

/-- Opens the temporary file, writes the content to it and moves it to the place of the path. It is
taken away when that fails on the way. -/
def writeThrough (s : Site) (p : Path) (content : List UInt8) (temporary : Location)
    (stop : Option (Nat × IoFault)) : Result WriteFault :=
  let opened := s.tree.set temporary (.file [])
  match stop with
  | some (size, cause) =>
    let written := opened.set temporary (.file (content.take size))
    (.error (.notReplaced p cause), written.unlink temporary)
  | none =>
    let written := opened.set temporary (.file content)
    match (s.withTree written).destinationIn p with
    | .error cause => (.error (.notReplaced p cause), written.unlink temporary)
    | .ok l => (.ok (), (written.unlink temporary).set l (.file content))

/-- Writes a file in one shot, the temporary file included. -/
def stagedWrite (s : Site) (p : Path) (content : List UInt8) (g : Staging) : Result WriteFault :=
  let directory := directoryOf p
  match s.ensureDirectory directory with
  | (.error fault, t) => (.error fault, t)
  | (.ok _, t) =>
    match (s.withTree t).temporaryIn directory, (s.withTree t).lookup directory with
    | .error cause, _ => (.error (.noTemporary directory cause), t)
    | .ok _, .error cause => (.error (.noTemporary directory cause), t)
    | .ok _, .ok (l, _) => (s.withTree t).writeThrough p content (l ++ [g.name]) g.stop

/-- The temporary file gets a name that is free in its directory. -/
def FreeName (s : Site) (p : Path) (g : Staging) : Prop :=
  ∀ l node, (s.prepared p).lookup (directoryOf p) = .ok (l, node) →
    (s.prepared p).tree.get? (l ++ [g.name]) = none

theorem replaceFile_eq (s : Site) (p : Path) (content : List UInt8) :
    s.replaceFile p content =
      (s.destinationIn p).map fun l => s.tree.set l (.file content) := by
  rw [replaceFile, destinationIn]
  rcases s.place p with fault | pl
  · cases fault <;> rfl
  · rcases hname : pl.name with _ | n
    · simp [hname, Except.map]
    · simp only [hname]
      split_ifs <;> rfl

theorem destinationIn_eq_ok_iff {l : Location} :
    s.destinationIn p = .ok l ↔ ∃ directory n, s.place p = .ok ⟨directory, some n⟩ ∧
      n.utf8ByteSize ≤ maxNameSize ∧ p.endsInSlash = false ∧
      s.tree.get? (directory ++ [n]) ≠ some .directory ∧ l = directory ++ [n] := by
  rw [destinationIn]
  rcases s.place p with fault | ⟨directory, _ | n⟩
  · cases fault <;> simp
  · simp
  · simp only [Place.location]
    split_ifs with hsize hslash hdir
    · simp [Nat.not_le.mpr hsize]
    · simp [hslash]
    · simp [hdir]
    · simpa [Nat.not_lt.mp hsize, hslash, hdir] using eq_comm

/-- **Where a file is moved to** depends on directories and links only. -/
theorem destinationIn_withTree (hkeeps : s.tree.KeepsWays t) (hkeeps' : t.KeepsWays s.tree)
    {l : Location} : (s.withTree t).destinationIn p = .ok l ↔ s.destinationIn p = .ok l := by
  have hplace : ∀ pl, (s.withTree t).place p = .ok pl ↔ s.place p = .ok pl := fun pl =>
    ⟨place_of_keepsWays (s := s.withTree t) (t := s.tree) hkeeps', place_of_keepsWays hkeeps⟩
  have hdir : ∀ m, (s.withTree t).tree.get? m = some .directory ↔
      s.tree.get? m = some .directory := fun m =>
    ⟨hkeeps' m _ (by simp), hkeeps m _ (by simp)⟩
  simp only [destinationIn_eq_ok_iff, hplace, ne_eq, hdir]

section Temporary

variable {temporary : Location} (hne : temporary ≠ [])
  (hfree : s.tree.get? temporary = none)

include hne

/-- The temporary file is all that is new while it is there. -/
theorem get?_written (content : List UInt8) (m : Location) :
    ((s.tree.set temporary (.file [])).set temporary (.file content)).get? m =
      if m = temporary then some (.file content) else s.tree.get? m := by
  split
  · next heq => rw [heq, Tree.get?_set_self _ hne]
  · next hm => rw [Tree.get?_set_of_ne _ hm, Tree.get?_set_of_ne _ hm]

include hfree

/-- Once the temporary file is taken away, the tree is as it was before. -/
theorem get?_unlink_written (content : List UInt8) (m : Location) :
    (((s.tree.set temporary (.file [])).set temporary (.file content)).unlink temporary).get? m =
      s.tree.get? m := by
  by_cases hm : m = temporary
  · rw [hm, Tree.get?_unlink_self _ hne, hfree]
  · rw [Tree.get?_unlink_of_ne _ hm, get?_written hne, if_neg hm]

theorem keepsWays_written (content : List UInt8) :
    s.tree.KeepsWays ((s.tree.set temporary (.file [])).set temporary (.file content)) ∧
      ((s.tree.set temporary (.file [])).set temporary (.file content)).KeepsWays s.tree := by
  constructor
  · intro m node _ hm
    rw [get?_written hne, if_neg, hm]
    rintro rfl
    rw [hfree] at hm
    cases hm
  · intro m node hnode hm
    rw [get?_written hne] at hm
    split at hm
    · exact absurd (Option.some.inj hm).symm (hnode content)
    · exact hm

/-- Through a temporary file, a file is put into its place or not as without one. -/
theorem writeThrough_of_free (p : Path) (content : List UInt8) :
    (∀ t, s.replaceFile p content = .ok t →
      (s.writeThrough p content temporary none).1 = .ok () ∧
        ∀ m, (s.writeThrough p content temporary none).2.get? m = t.get? m) ∧
    (∀ cause, s.replaceFile p content = .error cause →
      (∃ fault, (s.writeThrough p content temporary none).1 = .error fault) ∧
        ∀ m, (s.writeThrough p content temporary none).2.get? m = s.tree.get? m) := by
  obtain ⟨hkeeps, hkeeps'⟩ := keepsWays_written hne hfree content
  have hdestination := fun l => destinationIn_withTree (p := p) (l := l) hkeeps hkeeps'
  have hgone := get?_unlink_written hne hfree content
  rw [replaceFile_eq, writeThrough]
  rcases hl : s.destinationIn p with fault | l
  · refine ⟨fun t h => (nomatch h), fun cause _ => ?_⟩
    split
    · exact ⟨⟨_, rfl⟩, hgone⟩
    · next l hl' =>
      rw [(hdestination l).mp hl'] at hl
      cases hl
  · refine ⟨fun t h => ?_, fun cause h => (nomatch h)⟩
    obtain rfl := Except.ok.inj h
    obtain ⟨directory, n, -, -, -, -, rfl⟩ := destinationIn_eq_ok_iff.mp hl
    simp only [(hdestination _).mpr hl, true_and]
    intro m
    by_cases hm : m = directory ++ [n]
    · rw [hm, Tree.get?_set_self _ (by simp), Tree.get?_set_self _ (by simp)]
    · rw [Tree.get?_set_of_ne _ hm, Tree.get?_set_of_ne _ hm, hgone]

/-- A write that stops leaves the tree as it was. -/
theorem writeThrough_of_stop (p : Path) (content : List UInt8) (stop : Nat × IoFault) :
    (s.writeThrough p content temporary (some stop)).1 = .error (.notReplaced p stop.2) ∧
      ∀ m, (s.writeThrough p content temporary (some stop)).2.get? m = s.tree.get? m :=
  ⟨rfl, get?_unlink_written hne hfree _⟩

end Temporary

/-- A temporary file is created in a directory. -/
theorem exists_of_temporaryIn (h : s.temporaryIn p = .ok ()) :
    ∃ l, s.lookup p = .ok (l, .directory) := by
  rw [temporaryIn] at h
  split at h
  · cases h
  · split at h
    · cases h
    · next l hl => exact ⟨l, hl⟩
    · cases h

/-- The directory cannot be made, or no temporary file be created in it, with the stages in view or
not; else the content is written through one. -/
theorem stagedWrite_cases (s : Site) (p : Path) (content : List UInt8) (g : Staging) :
    (∃ fault, s.stagedWrite p content g = (.error fault, (s.prepared p).tree) ∧
      s.writeAtomic p content = (.error fault, (s.prepared p).tree)) ∨
    ∃ l node, (s.prepared p).lookup (directoryOf p) = .ok (l, node) ∧
      s.stagedWrite p content g =
        (s.prepared p).writeThrough p content (l ++ [g.name]) g.stop ∧
      s.writeAtomic p content =
        match (s.prepared p).replaceFile p content with
        | .error cause => (.error (.notReplaced p cause), (s.prepared p).tree)
        | .ok t => (.ok (), t) := by
  have hprepared : s.prepared p = s.withTree (s.ensureDirectory (directoryOf p)).2 := rfl
  rw [hprepared]
  unfold stagedWrite writeAtomic
  simp only
  rcases s.ensureDirectory (directoryOf p) with ⟨fault | _, t⟩
  · exact .inl ⟨fault, rfl, rfl⟩
  have hsite : ({ s with tree := t } : Site) = s.withTree t := rfl
  simp only [hsite]
  rcases htemporary : (s.withTree t).temporaryIn (directoryOf p) with cause | _
  · exact .inl ⟨.noTemporary (directoryOf p) cause, rfl, rfl⟩
  · obtain ⟨l, hl⟩ := exists_of_temporaryIn htemporary
    refine .inr ⟨l, .directory, hl, ?_, ?_⟩
    · simp only [hl]
    · rfl

/-- **The temporary file makes no difference** in the end. -/
theorem stagedWrite_of_stop_eq_none {g : Staging} (hfree : s.FreeName p g) (hstop : g.stop = none) :
    (s.stagedWrite p content g).1.isOk = (s.writeAtomic p content).1.isOk ∧
      ∀ m, (s.stagedWrite p content g).2.get? m = (s.writeAtomic p content).2.get? m := by
  rcases s.stagedWrite_cases p content g with
    ⟨fault, hstaged, hwrite⟩ | ⟨l, node, hl, hstaged, hwrite⟩
  · simp [hstaged, hwrite]
  rw [hstaged, hwrite, hstop]
  obtain ⟨hok, herror⟩ := writeThrough_of_free (by simp) (hfree l node hl) p content
  rcases hreplaced : (s.prepared p).replaceFile p content with cause | t
  · obtain ⟨⟨fault, hfault⟩, hget⟩ := herror cause hreplaced
    exact ⟨by rw [hfault]; rfl, hget⟩
  · obtain ⟨hsucceeds, hget⟩ := hok t hreplaced
    exact ⟨by rw [hsucceeds], hget⟩

/-- A write that stops on the way fails, and leaves nothing but new directories behind. -/
theorem stagedWrite_of_stop {g : Staging} (hfree : s.FreeName p g) (hstop : g.stop ≠ none) :
    ∃ fault, (s.stagedWrite p content g).1 = .error fault ∧
      s.tree.Grows (s.stagedWrite p content g).2 := by
  rcases s.stagedWrite_cases p content g with ⟨fault, hstaged, -⟩ | ⟨l, node, hl, hstaged, -⟩
  · rw [hstaged]
    exact ⟨fault, rfl, s.grows_prepared p⟩
  obtain ⟨stop, hstop⟩ := Option.ne_none_iff_exists'.mp hstop
  obtain ⟨hfault, hget⟩ := writeThrough_of_stop (by simp) (hfree l node hl) p content stop
  rw [hstaged, hstop]
  exact ⟨_, hfault, (s.grows_prepared p).trans fun m => .inl (hget m)⟩

/-- **A write touches one entry only.** When it succeeds, the entry that the path itself leads to
is a file with the content, and nothing else is new but directories that paths above lead to; when
it fails, nothing but directories is new at all. The temporary file that the content goes through is
gone in either case, also when the writing stops halfway. -/
theorem write_touches_one_entry (s : Site) (p : Path) (content : List UInt8) :
    (∀ t, s.writeAtomic p content = (.ok (), t) →
      ∃ directory n, s.OneEntry p content directory n t) ∧
    (∀ fault t, s.writeAtomic p content = (.error fault, t) → s.tree.Grows t) ∧
    ∀ g : Staging, s.FreeName p g →
      (g.stop = none →
        (s.stagedWrite p content g).1.isOk = (s.writeAtomic p content).1.isOk ∧
          ∀ m, (s.stagedWrite p content g).2.get? m = (s.writeAtomic p content).2.get? m) ∧
      (g.stop ≠ none → ∃ fault, (s.stagedWrite p content g).1 = .error fault ∧
        s.tree.Grows (s.stagedWrite p content g).2) :=
  ⟨fun _ => oneEntry_of_writeAtomic, fun _ _ => grows_of_writeAtomic_eq_error,
    fun _ hfree => ⟨stagedWrite_of_stop_eq_none hfree, stagedWrite_of_stop hfree⟩⟩

/-- The way of a path can go through the entry that it writes: the link that led back to its own
directory is a file then, so the file is there but is not read at this path any more. -/
example :
    let s : Site := { tree := ⟨[(["d"], .directory), (["d", "l"], .link ".")]⟩, cwd := [] }
    let t : Tree := ⟨[(["d", "l"], .file [1]), (["d"], .directory)]⟩
    s.writeAtomic ⟨"d/l/l"⟩ [1] = (.ok (), t) ∧
      (s.withTree t).readBytes ⟨"d/l"⟩ = .ok [1] ∧
      (s.withTree t).readBytes ⟨"d/l/l"⟩ = .error .notDirectory := by
  decide +kernel

/-- A link is replaced, on a way through a directory that is missing. What it stood for is kept. In
the same tree a write fails where a file stands in the place of a directory. -/
theorem write_touches_one_entry_link :
    let s : Site :=
      { tree := ⟨[(["keep.hpp"], .file [1]), (["out"], .directory),
          (["out", "gen.hpp"], .link "../keep.hpp")]⟩
        cwd := [] }
    let p : Path := ⟨"out/sub/../gen.hpp"⟩
    let g : Staging := { name := ".tmpAb12" }
    let halted : Staging := { name := ".tmpAb12", stop := some (0, .busy) }
    let t : Tree := ⟨[(["out", "gen.hpp"], .file [2]), (["out", "sub"], .directory),
      (["keep.hpp"], .file [1]), (["out"], .directory)]⟩
    let failed : Tree := ⟨(["new"], .directory) :: s.tree.nodes⟩
    s.writeAtomic p [2] = (.ok (), t) ∧ s.OneEntry p [2] ["out"] "gen.hpp" t ∧
      s.FreeName p g ∧ (s.stagedWrite p [2] g).2.get? ["out", ".tmpAb12"] = none ∧
      s.FreeName p halted ∧ s.tree.Grows (s.stagedWrite p [2] halted).2 ∧
      s.writeAtomic ⟨"new/../keep.hpp/gen.hpp"⟩ [2] =
        (.error (.noDirectory ⟨"new/../keep.hpp"⟩ .alreadyExists), failed) ∧
      s.tree.Grows failed := by
  intro s p g halted t failed
  have hwrite : s.writeAtomic p [2] = (.ok (), t) := by decide +kernel
  have hlookup : (s.prepared p).lookup (directoryOf p) = .ok (["out"], .directory) := by
    decide +kernel
  have hplace : (s.prepared p).place p = .ok ⟨["out"], some "gen.hpp"⟩ := by decide +kernel
  have hfree : ∀ g' : Staging, g'.name = ".tmpAb12" → s.FreeName p g' := by
    intro g' hname l node hl
    obtain ⟨rfl, rfl⟩ := Prod.mk.inj (Except.ok.inj (hlookup.symm.trans hl))
    rw [hname]
    decide +kernel
  obtain ⟨hok, -, hstaged⟩ := write_touches_one_entry s p [2]
  obtain ⟨directory, n, hentry⟩ := hok t hwrite
  obtain ⟨rfl, hn⟩ := Place.mk.inj (Except.ok.inj (hplace.symm.trans hentry.place))
  obtain rfl := Option.some.inj hn
  obtain ⟨-, hget⟩ := (hstaged g (hfree g rfl)).1 rfl
  obtain ⟨_, -, hgrows⟩ := (hstaged halted (hfree halted rfl)).2 (by simp [halted])
  have hfail : s.writeAtomic ⟨"new/../keep.hpp/gen.hpp"⟩ [2] =
      (.error (.noDirectory ⟨"new/../keep.hpp"⟩ .alreadyExists), failed) := by
    decide +kernel
  have hgrows' : s.tree.Grows failed :=
    (write_touches_one_entry s ⟨"new/../keep.hpp/gen.hpp"⟩ [2]).2.1 _ _ hfail
  refine ⟨hwrite, hentry, hfree g rfl, ?_, hfree halted rfl, hgrows, hfail, hgrows'⟩
  rw [hget, hwrite]
  decide +kernel

end Site

end ArgumentSchemes.Files
