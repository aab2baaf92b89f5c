import ArgumentSchemes.Proofs.Rendering
import ArgumentSchemes.Proofs.Utf8

/-!
# One run is enough

A run that writes and succeeds leaves both outputs where their paths lead (`Delivers`), and new
directories. Rendering does not see these, so the same run afterwards finds both outputs unchanged.

This takes that no limit on the size of paths is met (`WithinLimits`): a directory that a run makes
is walked through by the next one, and the path of the walk to it may be too long.

Main statements: a successful run converges in one step where no limit is met
(`generation_converges`), and with a root whose path is almost too long it need not
(`generation_need_not_converge`).
-/

namespace ArgumentSchemes.Run

open Files (Location Path Site Tree)

/-! ### Outputs in their places -/

/-- The tree `t` comes from that of the site by putting an output where its path leads. -/
structure Delivers (s : Site) (p : Path) (content : String) (t : Tree) : Prop where
  wellFormed : t.WellFormed
  linkFree : t.LinkFree
  updates : s.tree.Updates t [s.spelled p]
  refusal : p.refusal? = none
  endsInName : p.EndsInName
  file : ∃ bytes, t.get? (s.spelled p) = some (.file bytes) ∧ Text.decode? bytes = some content

/-- An output that is current is where its path leads. -/
theorem delivers_of_readText {s : Site} {p : Path} {content : String} (ht : s.tree.WellFormed)
    (hs : s.tree.LinkFree) (hup : .up ∉ p.components) (h : s.readText p = .ok content) :
    Delivers s p content s.tree := by
  obtain ⟨bytes, hread, hdecode⟩ := Site.readText_eq_ok_iff.mp h
  obtain ⟨l, hl⟩ := Site.readBytes_eq_ok_iff.mp hread
  obtain ⟨hfollow, hfile⟩ := Site.lookup_eq_ok_iff.mp hl
  obtain ⟨hrefusal, hpasses, rfl⟩ := (Site.follow_eq_ok_iff hs).mp hfollow
  have hempty := (Path.senseless?_eq_none_iff.mp (Path.refusal?_eq_none_iff.mp hrefusal).1).2
  exact
    { wellFormed := ht
      linkFree := hs
      updates :=
        { file := by simpa using ⟨bytes, hfile⟩
          old := by simp [hfile]
          elsewhere := fun _ _ => .inl rfl }
      refusal := hrefusal
      endsInName := Site.endsInName_of_file hempty hup hpasses hfile
      file := ⟨bytes, hfile, hdecode⟩ }

/-- An output that is written is where its path leads. -/
theorem delivers_of_writeAtomic {s : Site} {p : Path} {content : String} {t : Tree}
    (ht : s.tree.WellFormed) (hs : s.tree.LinkFree)
    (h : s.writeAtomic p (Text.encode content) = (.ok (), t)) : Delivers s p content t := by
  obtain ⟨directory, n, hplace, hsize, hslash, hfree, rfl⟩ :=
    Site.replaceFile_eq_ok (Site.replaceFile_of_writeAtomic h)
  have hgains := s.gains_prepared p
  have ht' := ht.of_gains hgains
  have hs' := hs.of_grows hgains.grows
  obtain ⟨hrefusal, hfollow, hdir, hname⟩ := Site.place_eq_ok hplace
  have hsteps := hname n rfl
  have hspelled : s.spelled p = directory ++ [n] := by
    have hdirectory := ((Files.followSteps_eq_ok_iff hs').mp hfollow).2
    rw [Site.cwd_prepared] at hdirectory
    rw [Site.spelled_eq_rawSteps, hsteps, List.foldl_append, ← hdirectory]
    rfl
  have hisName : Files.IsName n := by
    have hnul := (Path.senseless?_eq_none_iff.mp (Path.refusal?_eq_none_iff.mp hrefusal).1).1
    exact Path.isName_of_mem_rawSteps (by rw [hsteps]; simp) hnul hsize
  have hne : directory ++ [n] ≠ [] := by simp
  have hset := (s.prepared p).tree.get?_set_self hne (.file (Text.encode content))
  exact
    { wellFormed := ht'.set hdir hisName fun hdir' => absurd hdir' hfree
      linkFree := hs'.set hne (by simp)
      updates := hspelled ▸ hgains.grows.updates_set hne hfree _
      refusal := hrefusal
      endsInName := ⟨hslash, _, n, hsteps⟩
      file := ⟨Text.encode content, hspelled ▸ hset, Text.decode?_encode content⟩ }

/-- A settled output is where its path leads. -/
theorem delivers_of_placed {s : Site} {p : Path} {content : String} {current : Bool} {t : Tree}
    (ht : s.tree.WellFormed) (hs : s.tree.LinkFree) (hup : .up ∉ p.components)
    (hcurrent : current = true → s.readText p = .ok content) (h : Placed s p content current t) :
    Delivers s p content t := by
  rcases h with ⟨htrue, rfl⟩ | ⟨-, hwrite⟩
  · exact delivers_of_readText ht hs hup (hcurrent htrue)
  · exact delivers_of_writeAtomic ht hs hwrite

theorem Delivers.readText {s : Site} {p : Path} {content : String} {t : Tree}
    (h : Delivers s p content t) (hup : .up ∉ p.components) :
    (s.withTree t).readText p = .ok content := by
  obtain ⟨bytes, hfile, hdecode⟩ := h.file
  have hfollow : (s.withTree t).follow p true = .ok (s.spelled p) :=
    Site.follow_spelled h.wellFormed h.linkFree h.refusal hup h.endsInName
      (Option.isSome_of_eq_some hfile)
  exact Site.readText_eq_ok_iff.mpr ⟨bytes, Site.readBytes_eq_ok_iff.mpr
    ⟨s.spelled p, Site.lookup_eq_ok_iff.mpr ⟨hfollow, hfile⟩⟩, hdecode⟩

/-! ### The run afterwards -/

/-- The outputs of a run go down from where they start, to different places, and the license banner
is none of them. -/
structure SeparateOutputs (s : Site) (o : Options) : Prop where
  up_not_mem : ∀ p ∈ o.outputPaths, .up ∉ p.components
  ne : s.spelled o.nativePath ≠ s.spelled o.bindingPath
  license : s.spelled o.licensePath ∉ o.outputPaths.map s.spelled

/-- No limit on the size of paths is met: the root and the outputs have paths from `/` that are not
too long, and so have all directories of the tree `t` below the root, as they are walked from it. -/
structure WithinLimits (s : Site) (o : Options) (t : Tree) : Prop where
  root : ∃ l, s.resolve o.root = .ok l
  outputs : ∀ p ∈ o.outputPaths, (s.spelled p).path.fits = true
  walked : ∀ names, t.get? (s.spelled o.root ++ names) = some .directory →
    (names.foldl Path.entry o.root).fits = true

/-- What a run that writes and succeeds leaves: both outputs in their places. -/
theorem delivers_of_generate {s : Site} {o : Options} {g : Generation} (ht : s.tree.WellFormed)
    (hs : s.tree.LinkFree) (hseparate : SeparateOutputs s o) (hmode : o.mode = .write)
    (h : (generate s o).1.result = .ok g) :
    ∃ artifacts g₀ t, (render s o).result = .ok (artifacts, g₀) ∧
      g = { g₀ with outputs := g.outputs } ∧ Delivers s o.nativePath artifacts.native t ∧
      Delivers (s.withTree t) o.bindingPath artifacts.binding (generate s o).2 := by
  obtain ⟨artifacts, g₀, outputs, hrender, hcompare, hsettle, rfl⟩ := generate_eq_ok_iff.mp h
  have htree := (generate_of_compared hrender hcompare).2
  have hread := readText_of_compareOutputs hcompare
  obtain ⟨current, current', rfl⟩ := compareOutputs_outputs_eq_ok hcompare
  rw [hmode, settle_write] at hsettle htree
  obtain ⟨t, others, hplaced, hrest, -, htree₁⟩ := writeOutputs_cons_eq_ok hsettle
  obtain ⟨t', -, hplaced', -, -, htree₂⟩ := writeOutputs_cons_eq_ok hrest
  have htree' : (generate s o).2 = t' := by rw [htree, htree₁, htree₂, writeOutputs]; rfl
  have hup := hseparate.up_not_mem
  have hnative := delivers_of_placed ht hs (hup o.nativePath (by simp [Options.outputPaths]))
    (hread (o.nativePath, artifacts.native, current) (by simp)) hplaced
  refine ⟨artifacts, g₀, t, hrender, rfl, hnative, ?_⟩
  rw [htree']
  refine delivers_of_placed hnative.wellFormed hnative.linkFree
    (hup o.bindingPath (by simp [Options.outputPaths])) (fun htrue => ?_) hplaced'
  -- the binding interface was compared before the native header was written
  have hbefore := hread (o.bindingPath, artifacts.binding, current') (by simp) htrue
  exact Site.readText_of_updates hs hnative.linkFree hnative.updates
    (by simpa using Ne.symm hseparate.ne) hbefore

/-- **A run that writes and succeeds is enough.** In a well-formed tree without links, and when the
outputs are separate, both outputs hold what was rendered. If no limit on the size of paths is met,
then the same run afterwards, in any mode, finds the same headers and schemes and both outputs
unchanged, and leaves the tree as it is. -/
theorem generation_converges {s : Site} {o : Options} {g : Generation} (ht : s.tree.WellFormed)
    (hs : s.tree.LinkFree) (hseparate : SeparateOutputs s o) (hmode : o.mode = .write)
    (h : (generate s o).1.result = .ok g) :
    ∃ artifacts g₀, (render s o).result = .ok (artifacts, g₀) ∧
      (s.withTree (generate s o).2).readText o.nativePath = .ok artifacts.native ∧
      (s.withTree (generate s o).2).readText o.bindingPath = .ok artifacts.binding ∧
      (WithinLimits s o (generate s o).2 →
        ∀ mode, (generate (s.withTree (generate s o).2) { o with mode }).1.result =
            .ok { g with outputs := o.outputPaths.map (·, .unchanged) } ∧
          (generate (s.withTree (generate s o).2) { o with mode }).2 = (generate s o).2) := by
  obtain ⟨artifacts, g₀, t, hrender, hg, hnative, hbinding⟩ :=
    delivers_of_generate ht hs hseparate hmode h
  generalize (generate s o).2 = t' at hbinding ⊢
  have hup := hseparate.up_not_mem
  have hreadBinding : (s.withTree t').readText o.bindingPath = .ok artifacts.binding :=
    hbinding.readText (hup _ (by simp [Options.outputPaths]))
  have hreadNative : (s.withTree t').readText o.nativePath = .ok artifacts.native :=
    Site.readText_of_updates hnative.linkFree hbinding.linkFree hbinding.updates
      (by simpa using hseparate.ne) (hnative.readText (hup _ (by simp [Options.outputPaths])))
  refine ⟨artifacts, g₀, hrender, hreadNative, hreadBinding, fun hlimits mode => ?_⟩
  have hupdates : s.tree.Updates t' (o.outputPaths.map s.spelled) :=
    hnative.updates.trans hbinding.updates
  have hdirect : ∀ p ∈ o.outputPaths, s.Direct p := by
    intro p hp
    have hdelivered : p.refusal? = none ∧ p.EndsInName := by
      rcases List.mem_pair.mp hp with rfl | rfl
      · exact ⟨hnative.refusal, hnative.endsInName⟩
      · exact ⟨hbinding.refusal, hbinding.endsInName⟩
    exact ⟨hdelivered.1, hup p hp, hdelivered.2, hlimits.outputs p hp⟩
  obtain ⟨l, hl⟩ := hlimits.root
  have hrender' := render_of_updates ht hs hbinding.wellFormed hbinding.linkFree hupdates hdirect hl
    hlimits.walked hseparate.license hrender
  have hcurrent : ∀ output ∈ o.outputs artifacts,
      (s.withTree t').readText output.1 = .ok output.2 := by
    simp [Options.outputs, hreadNative, hreadBinding]
  obtain ⟨hresult, htree⟩ :=
    @generate_of_readText (s.withTree t') { o with mode } artifacts g₀ hrender' hcurrent
  refine ⟨?_, htree⟩
  rw [hresult, hg]
  rfl

/-- With the outputs below the root, where the native header has the name of a header, the second
run finds one header as the first one does. -/
theorem generation_converges_below_root :
    let s : Site :=
      { tree := ⟨[(["misc"], .directory),
          (["misc", "license_header.txt"], .file (Text.encode "// L\n")),
          (["a.hpp"], .file [])]⟩
        cwd := [] }
    let o : Options := { root := ⟨"."⟩, outDir := ⟨"."⟩ }
    let g : Generation :=
      { filesScanned := 1, generated := [], rejections := []
        outputs := [(⟨"./casadi/autogenerated.hpp"⟩, .written),
          (⟨"./swig/autogenerated.i"⟩, .written)] }
    (generate s o).1.result = .ok g ∧
      ∀ mode, (generate (s.withTree (generate s o).2) { o with mode }).1.result =
        .ok { g with outputs := [(⟨"./casadi/autogenerated.hpp"⟩, .unchanged),
          (⟨"./swig/autogenerated.i"⟩, .unchanged)] } := by
  intro s o g
  have hresult : (generate s o).1.result = .ok g := by decide +kernel
  have hwellFormed : s.tree.WellFormed :=
    { nodup := by decide
      parent := by
        intro e he
        simp only [s, List.mem_cons, List.not_mem_nil, or_false] at he
        rcases he with rfl | rfl | rfl
        · exact ⟨[], "misc", rfl, by decide +kernel, rfl⟩
        · exact ⟨["misc"], "license_header.txt", rfl, by decide +kernel, by decide⟩
        · exact ⟨[], "a.hpp", rfl, by decide +kernel, rfl⟩ }
  have hlinkFree : s.tree.LinkFree := Tree.linkFree_of_nodes (by simp [s])
  have hseparate : SeparateOutputs s o :=
    { up_not_mem := by decide +kernel
      ne := by decide +kernel
      license := by decide +kernel }
  have hdirectories : ∀ e ∈ (generate s o).2.nodes, e.2 = .directory →
      (e.1.foldl Path.entry o.root).fits = true := by decide +kernel
  have hroot : s.spelled o.root = [] := by decide +kernel
  have hlimits : WithinLimits s o (generate s o).2 :=
    { root := ⟨[], by decide +kernel⟩
      outputs := by decide +kernel
      walked := by
        intro names hdir
        rw [hroot, List.nil_append] at hdir
        by_cases hne : names = []
        · subst hne
          decide +kernel
        · exact hdirectories _ (Tree.mem_nodes_of_get? hne hdir) rfl }
  obtain ⟨-, -, -, -, -, hagain⟩ :=
    generation_converges hwellFormed hlinkFree hseparate rfl hresult
  have houtputs : o.outputPaths.map (·, Status.unchanged) =
      [(⟨"./casadi/autogenerated.hpp"⟩, .unchanged), (⟨"./swig/autogenerated.i"⟩, .unchanged)] := by
    decide +kernel
  refine ⟨hresult, fun mode => ?_⟩
  rw [(hagain hlimits mode).1, houtputs]

/-! ### Where a limit is met -/

/-- The current directory, with slashes behind it. -/
def slashed (slashes : Nat) : Path := ⟨"." ++ String.join (List.replicate slashes "/")⟩

theorem toList_text_slashed (slashes : Nat) :
    (slashed slashes).text.toList = '.' :: List.replicate slashes '/' := by
  have hslashes : (List.replicate slashes "/").flatMap String.toList =
      List.replicate slashes '/' := by
    induction slashes with
    | zero => rfl
    | succ slashes ih => rw [List.replicate_succ, List.flatMap_cons, ih]; rfl
  simp [slashed, String.toList_join, hslashes]

theorem utf8ByteSize_text_slashed (slashes : Nat) :
    (slashed slashes).text.utf8ByteSize = 1 + slashes := by
  have hslashes : (String.join (List.replicate slashes "/")).utf8ByteSize = slashes := by
    induction slashes with
    | zero => rfl
    | succ slashes ih =>
      rw [List.replicate_succ, String.join_cons, String.utf8ByteSize_append, ih, Nat.add_comm]
      rfl
  rw [slashed, String.utf8ByteSize_append, hslashes]
  rfl

/-- The slashes are no steps. -/
theorem rawSteps_slashed (slashes : Nat) : (slashed slashes).rawSteps = [.here] := by
  have hsegments : (Files.segments ('.' :: List.replicate slashes '/')).filterMap
      Files.stepOfSegment? = [.here] := by
    induction slashes with
    | zero => decide
    | succ slashes ih =>
      rw [List.replicate_succ', ← List.cons_append, Files.segments_append_slash,
        List.filterMap_append, ih]
      rfl
  have hrelative : (slashed slashes).isAbsolute = false := by
    rw [← Bool.not_eq_true, Path.isAbsolute_iff, toList_text_slashed]
    simp
  rw [Path.rawSteps_of_not_isAbsolute hrelative, toList_text_slashed, hsegments]

theorem senseless?_slashed (slashes : Nat) : (slashed slashes).senseless? = none := by
  refine Path.senseless?_eq_none_iff.mpr ⟨?_, ?_⟩
  · simp [toList_text_slashed, List.mem_replicate]
  · rw [ne_eq, ← String.toList_inj, toList_text_slashed]
    simp

theorem fits_slashed_iff {slashes : Nat} : (slashed slashes).fits = true ↔ slashes + 1 ≤ 4095 := by
  rw [Path.fits, utf8ByteSize_text_slashed, decide_eq_true_eq, Nat.add_comm]
  rfl

/-- A name stands right behind the last of the slashes. -/
theorem fits_entry_slashed_iff {slashes : Nat} (h : 0 < slashes) {n : String}
    (hn : Files.IsName n) :
    ([n].foldl Path.entry (slashed slashes)).fits = true ↔
      slashes + 1 + n.utf8ByteSize ≤ 4095 := by
  have hlast : (slashed slashes).text.toList.getLast? = some '/' := by
    obtain ⟨slashes, rfl⟩ := Nat.exists_eq_add_one.mpr h
    rw [toList_text_slashed, List.replicate_succ', ← List.cons_append, List.getLast?_concat]
  have hempty : (slashed slashes).text.isEmpty = false := by
    simpa using (Path.senseless?_eq_none_iff.mp (senseless?_slashed slashes)).2
  have hentry : (slashed slashes).entry n = ⟨(slashed slashes).text ++ n⟩ := by
    simp [Path.entry, Path.join, Path.isAbsolute_of_isName hn, hempty, hlast]
  rw [List.foldl_cons, List.foldl_nil, hentry, Path.fits, String.utf8ByteSize_append,
    utf8ByteSize_text_slashed, decide_eq_true_eq, Nat.add_comm 1]
  rfl

/-- A site with nothing but a license banner. -/
def bannerSite : Site := { tree := ⟨[(["L"], .file (Text.encode "// L\n"))]⟩, cwd := [] }

/-- The options of a run that is given the current directory with slashes behind it. -/
def slashedOptions (slashes : Nat) : Options :=
  { root := slashed slashes, outDir := ⟨"."⟩, config := { license := some ⟨"L"⟩ } }

theorem wellFormed_bannerSite : bannerSite.tree.WellFormed where
  nodup := by decide
  parent := by
    intro e he
    obtain rfl := List.mem_singleton.mp he
    exact ⟨[], "L", rfl, by decide, rfl⟩

theorem linkFree_bannerSite : bannerSite.tree.LinkFree :=
  Tree.linkFree_of_nodes (by simp [bannerSite])

theorem get?_bannerSite_eq_some {l : Location} {node : Files.Node} (hl : l ≠ [])
    (h : bannerSite.tree.get? l = some node) :
    l = ["L"] ∧ node = .file (Text.encode "// L\n") := by
  simpa [bannerSite] using Tree.mem_nodes_of_get? hl h

theorem spelled_slashed (s : Site) (slashes : Nat) : s.spelled (slashed slashes) = s.cwd := by
  rw [Site.spelled_eq_rawSteps, rawSteps_slashed]
  rfl

theorem licensePath_slashed (slashes : Nat) :
    (slashedOptions slashes).licensePath = ["L"].foldl Path.entry (slashed slashes) := by
  rw [List.foldl_cons, List.foldl_nil]
  rfl

theorem spelled_license_slashed (slashes : Nat) :
    bannerSite.spelled (slashedOptions slashes).licensePath = ["L"] := by
  rw [licensePath_slashed,
    Site.spelled_foldl_entry (senseless?_slashed slashes) (by decide), spelled_slashed]
  rfl

theorem separateOutputs_slashed (slashes : Nat) :
    SeparateOutputs bannerSite (slashedOptions slashes) where
  -- the outputs do not depend on the root
  up_not_mem := by
    change ∀ p ∈ (slashedOptions 0).outputPaths, .up ∉ p.components
    decide
  ne := by
    change bannerSite.spelled (slashedOptions 0).nativePath ≠
      bannerSite.spelled (slashedOptions 0).bindingPath
    decide
  license := by
    rw [spelled_license_slashed]
    change ["L"] ∉ (slashedOptions 0).outputPaths.map bannerSite.spelled
    decide

theorem readText_license_slashed {slashes : Nat} (h : 0 < slashes) (hfits : slashes + 2 ≤ 4095) :
    bannerSite.readText (slashedOptions slashes).licensePath = .ok "// L\n" := by
  have hname : Files.IsName "L" := by decide
  have hnames : ∀ n ∈ ["L"], Files.IsName n := by simpa using hname
  have hrefusal : (slashedOptions slashes).licensePath.refusal? = none := by
    rw [licensePath_slashed]
    exact Path.refusal?_eq_none_iff.mpr
      ⟨(Path.rawSteps_foldl_entry (senseless?_slashed slashes) hnames).1,
        (fits_entry_slashed_iff h hname).mpr hfits⟩
  have hpasses : Files.Passes bannerSite.tree Files.anywhere bannerSite.cwd
      (slashedOptions slashes).licensePath.steps := by
    rw [licensePath_slashed, Path.steps_foldl_entry (senseless?_slashed slashes) hnames (by simp),
      rawSteps_slashed]
    exact ⟨rfl, rfl, by decide, rfl, rfl, trivial⟩
  have hfollow : bannerSite.follow (slashedOptions slashes).licensePath true = .ok ["L"] :=
    (Site.follow_eq_ok_iff linkFree_bannerSite).mpr
      ⟨hrefusal, hpasses, (spelled_license_slashed slashes).symm⟩
  exact Site.readText_eq_ok_iff.mpr ⟨Text.encode "// L\n", Site.readBytes_eq_ok_iff.mpr ⟨["L"],
    Site.lookup_eq_ok_iff.mpr ⟨hfollow, rfl⟩⟩, Text.decode?_encode _⟩

/-- The names of headers, when no source gives a pattern. -/
theorem parse_headerPattern : Files.Pattern.parse "*.hpp" =
    .ok ⟨[.anyRun, .char '.', .char 'h', .char 'p', .char 'p']⟩ := by
  decide

/-- The license banner is no header. -/
theorem headers_slashed {slashes : Nat} {exclude : List Path} {found : Files.Discovery}
    (h : bannerSite.discover (slashed slashes) "*.hpp" exclude = .ok found) :
    found.headers = [] := by
  obtain ⟨compiled, files, hcompiled, hfiles, hheaders⟩ := Site.discover_eq_ok h
  obtain rfl := Except.ok.inj (parse_headerPattern.symm.trans hcompiled)
  rw [hheaders, List.eq_nil_iff_forall_not_mem]
  intro q hq
  obtain ⟨hmem, haccepts⟩ :=
    List.mem_filter.mp (List.mem_mergeSort.mp (List.mem_filter.mp hq).1)
  obtain ⟨names, content, hfile, rfl⟩ :=
    (Site.mem_walk_iff wellFormed_bannerSite linkFree_bannerSite hfiles).mp hmem
  rw [spelled_slashed] at hfile
  have hne : names ≠ [] := by
    rintro rfl
    cases hfile
  obtain ⟨rfl, -⟩ : names = ["L"] ∧ _ := get?_bannerSite_eq_some hne hfile
  have hname : Site.matchedName (["L"].foldl Path.entry (slashed slashes)) = "L" := by
    rw [Site.matchedName, Path.fileName?,
      Path.components_foldl_entry (senseless?_slashed slashes) (by decide)]
    simp
  rw [hname] at haccepts
  exact absurd haccepts (by decide)

theorem exists_discover_slashed {slashes : Nat} (hfits : slashes + 1 ≤ 4095)
    (exclude : List Path) :
    ∃ found, bannerSite.discover (slashed slashes) "*.hpp" exclude = .ok found := by
  have hrefusal : (slashed slashes).refusal? = none :=
    Path.refusal?_eq_none_iff.mpr ⟨senseless?_slashed slashes, fits_slashed_iff.mpr hfits⟩
  have hpasses : Files.Passes bannerSite.tree Files.anywhere bannerSite.cwd
      (slashed slashes).steps := by
    rw [Path.steps, rawSteps_slashed]
    split
    · exact ⟨rfl, rfl, trivial⟩
    · exact ⟨rfl, trivial⟩
  have hroot : bannerSite.follow (slashed slashes) false =
      .ok (bannerSite.spelled (slashed slashes)) :=
    (Site.follow_eq_ok_iff linkFree_bannerSite).mpr ⟨hrefusal, hpasses, rfl⟩
  have hwalked : ∀ names, bannerSite.tree.get? (bannerSite.spelled (slashed slashes) ++ names) =
      some .directory → (names.foldl Path.entry (slashed slashes)).fits = true := by
    intro names hdir
    rw [spelled_slashed] at hdir
    by_cases hne : names = []
    · subst hne
      exact fits_slashed_iff.mpr hfits
    · cases (get?_bannerSite_eq_some hne hdir).2
  obtain ⟨files, hfiles⟩ := Site.exists_walk wellFormed_bannerSite linkFree_bannerSite hroot
    (by rw [spelled_slashed]; rfl) hwalked
  exact Site.exists_discover parse_headerPattern hfiles

/-- The first run succeeds while the path of the license banner is not too long: then it does what
it does with one slash. -/
theorem exists_generate_slashed {slashes : Nat} (h : 0 < slashes) (hfits : slashes + 2 ≤ 4095) :
    ∃ g, (generate bannerSite (slashedOptions slashes)).1.result = .ok g := by
  have hone : (generate bannerSite (slashedOptions 1)).1.result.isOk = true := by decide +kernel
  rcases hrun : (generate bannerSite (slashedOptions 1)).1.result with failure | g
  · rw [hrun] at hone
    cases hone
  obtain ⟨artifacts, g₀, outputs, hrender, hcompare, hsettle, -⟩ := generate_eq_ok_iff.mp hrun
  obtain ⟨found, collection, license, hfound, hcollection, hread, hartifacts, rfl⟩ :=
    render_eq_ok_iff.mp hrender
  obtain rfl : "// L\n" = license :=
    Except.ok.inj ((readText_license_slashed Nat.one_pos (by omega)).symm.trans hread)
  obtain ⟨found', hfound'⟩ :=
    @exists_discover_slashed slashes (by omega) (slashedOptions slashes).outputPaths
  rw [headers_slashed hfound, ← headers_slashed hfound'] at hcollection
  have hrender' : (render bannerSite (slashedOptions slashes)).result = .ok (artifacts, _) :=
    render_eq_ok_iff.mpr ⟨found', collection, _, hfound', hcollection,
      readText_license_slashed h hfits, hartifacts, rfl⟩
  exact ⟨_, generate_eq_ok_iff.mpr ⟨artifacts, _, outputs, hrender', hcompare, hsettle, rfl⟩⟩

/-- The run afterwards comes to a directory that the first one made, by too long a path. -/
theorem generate_again_slashed_ne_ok {slashes : Nat} (h : 0 < slashes) (hlong : 4095 < slashes + 7)
    {g : Generation} (hrun : (generate bannerSite (slashedOptions slashes)).1.result = .ok g)
    (mode : Mode) (g' : Generation) :
    (generate (bannerSite.withTree (generate bannerSite (slashedOptions slashes)).2)
      { slashedOptions slashes with mode }).1.result ≠ .ok g' := by
  obtain ⟨artifacts, -, t, -, -, hnative, hbinding⟩ := delivers_of_generate wellFormed_bannerSite
    linkFree_bannerSite (separateOutputs_slashed slashes) rfl hrun
  generalize (generate bannerSite (slashedOptions slashes)).2 = t' at hbinding ⊢
  have hdir : t'.get? ["casadi"] = some .directory := by
    have hspelled : bannerSite.spelled (slashedOptions slashes).nativePath =
        ["casadi"] ++ ["autogenerated.hpp"] := by
      change bannerSite.spelled (slashedOptions 0).nativePath = _
      decide
    obtain ⟨bytes, hfile, -⟩ := hnative.file
    rw [hspelled] at hfile
    exact (hbinding.wellFormed.get?_concat
      (hbinding.updates.isSome_get? (Option.isSome_of_eq_some hfile))).1
  intro hagain
  obtain ⟨_, _, _, hrender, -⟩ := generate_eq_ok_iff.mp hagain
  obtain ⟨_, _, _, hfound, -⟩ := render_eq_ok_iff.mp hrender
  obtain ⟨-, files, -, hfiles, -⟩ := Site.discover_eq_ok hfound
  have hfits : (["casadi"].foldl Path.entry (slashed slashes)).fits = true :=
    @Site.fits_of_walk (bannerSite.withTree t') (slashed slashes) files hbinding.wellFormed
      hbinding.linkFree hfiles ["casadi"] (by rw [spelled_slashed]; exact hdir)
  have hsize : slashes + 1 + 6 ≤ 4095 := (fits_entry_slashed_iff h (by decide)).mp hfits
  omega

/-- With 4090 slashes behind the root, the first run succeeds and the run afterwards fails. -/
theorem generation_need_not_converge :
    bannerSite.tree.WellFormed ∧ bannerSite.tree.LinkFree ∧
      SeparateOutputs bannerSite (slashedOptions 4090) ∧ (slashedOptions 4090).mode = .write ∧
      (∃ g, (generate bannerSite (slashedOptions 4090)).1.result = .ok g) ∧
      ∀ mode g, (generate (bannerSite.withTree (generate bannerSite (slashedOptions 4090)).2)
        { slashedOptions 4090 with mode }).1.result ≠ .ok g := by
  obtain ⟨g, hrun⟩ := @exists_generate_slashed 4090 (by decide) (by decide)
  exact ⟨wellFormed_bannerSite, linkFree_bannerSite, separateOutputs_slashed 4090, rfl, ⟨g, hrun⟩,
    generate_again_slashed_ne_ok (by decide) (by decide) hrun⟩

end ArgumentSchemes.Run
