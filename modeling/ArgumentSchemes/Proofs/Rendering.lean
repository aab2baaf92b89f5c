import ArgumentSchemes.Proofs.Discovery
import ArgumentSchemes.Proofs.Stages

/-!
# What rendering depends on

Rendering reads the headers that are found and the license banner, and nothing else
(`render_eq_ok_iff`). So it is not changed by new files at the output paths and new directories
elsewhere, when the license banner is none of the outputs (`render_of_updates`).
-/

namespace ArgumentSchemes

theorem Report.Told.result_lift_eq_ok_iff {δ ε α : Type} {wrap : δ → ε} {x : Except δ α} {a : α} :
    (Told.lift wrap x).result = .ok a ↔ x = .ok a := by
  cases x <;> simp [Told.lift, Except.mapError]

/-! ### Reading files that stay -/

namespace Files.Site

variable {s : Site} {t : Tree} {locations : List Location} {p : Path}

/-- What is read at a path is what was read before, unless a file is new there. -/
theorem readBytes_of_updates (hs : s.tree.LinkFree) (hs' : t.LinkFree)
    (hupdates : s.tree.Updates t locations) (hp : s.spelled p ∉ locations) {content : List UInt8}
    (h : s.readBytes p = .ok content) : (s.withTree t).readBytes p = .ok content := by
  obtain ⟨l, hl⟩ := readBytes_eq_ok_iff.mp h
  obtain ⟨hfollow, hfile⟩ := lookup_eq_ok_iff.mp hl
  obtain ⟨hrefusal, hpasses, rfl⟩ := (follow_eq_ok_iff hs).mp hfollow
  refine readBytes_eq_ok_iff.mpr ⟨s.spelled p, lookup_eq_ok_iff.mpr ⟨?_, ?_⟩⟩
  · exact (follow_eq_ok_iff hs').mpr ⟨hrefusal, hpasses.of_updates hupdates, rfl⟩
  · exact (hupdates.get?_eq_some_file_iff hp).mpr hfile

theorem readText_of_updates (hs : s.tree.LinkFree) (hs' : t.LinkFree)
    (hupdates : s.tree.Updates t locations) (hp : s.spelled p ∉ locations) {text : String}
    (h : s.readText p = .ok text) : (s.withTree t).readText p = .ok text := by
  obtain ⟨content, hread, hdecode⟩ := readText_eq_ok_iff.mp h
  exact readText_eq_ok_iff.mpr
    ⟨content, readBytes_of_updates hs hs' hupdates hp hread, hdecode⟩

theorem readLossy_of_updates (hs : s.tree.LinkFree) (hs' : t.LinkFree)
    (hupdates : s.tree.Updates t locations) (hp : s.spelled p ∉ locations) {text : String}
    (h : s.readLossy p = .ok text) : (s.withTree t).readLossy p = s.readLossy p := by
  rw [readLossy] at h
  split at h
  · cases h
  · next content hread =>
    rw [readLossy, readLossy, hread, readBytes_of_updates hs hs' hupdates hp hread]

end Files.Site

namespace Run

open Files (Location Path Site Tree)
open Header (Checker)
open Report (Told)

/-! ### Scanning -/

theorem exists_of_scanInto {s : Site} {checker : Checker} {c c' : Collection}
    {headers : List Path} (h : (scanInto s checker c headers).result = .ok c') :
    ∀ p ∈ headers, ∃ text, s.readLossy p = .ok text := by
  induction headers generalizing c with
  | nil => simp
  | cons p headers ih =>
    rw [scanInto] at h
    obtain ⟨_, -, h⟩ := Told.result_bind_eq_ok_iff.mp h
    obtain ⟨text, htext, h⟩ := Told.result_bind_eq_ok_iff.mp h
    obtain ⟨_, -, h⟩ := Told.result_bind_eq_ok_iff.mp h
    intro q hq
    rcases List.mem_cons.mp hq with rfl | hq
    · exact ⟨text, Told.result_lift_eq_ok_iff.mp htext⟩
    · exact ih h q hq

/-- A scan depends on the site by what is read at the headers. -/
theorem scanInto_congr {s s' : Site} {checker : Checker} {c : Collection} {headers : List Path}
    (h : ∀ p ∈ headers, s'.readLossy p = s.readLossy p) :
    scanInto s' checker c headers = scanInto s checker c headers := by
  induction headers generalizing c with
  | nil => rfl
  | cons p headers ih =>
    have hrest : ∀ c, scanInto s' checker c headers = scanInto s checker c headers := fun c =>
      ih fun q hq => h q (List.mem_cons_of_mem p hq)
    simp only [scanInto, h p List.mem_cons_self, hrest]

/-! ### Rendering -/

/-- **Rendering** succeeds when the headers are found and read, the license banner is read, and the
accepted schemes can be written. -/
theorem render_eq_ok_iff {s : Site} {o : Options} {artifacts : Emit.Artifacts} {g : Generation} :
    (render s o).result = .ok (artifacts, g) ↔
      ∃ found collection license,
        s.discover o.root o.config.settings.pattern o.outputPaths = .ok found ∧
        (scan s o.config.settings.checker found.headers).result = .ok collection ∧
        s.readText o.licensePath = .ok license ∧
        Emit.assemble collection.accepted (o.config.settings.artifactOptions license)
          o.config.settings.binding = .ok artifacts ∧
        g = { filesScanned := collection.filesScanned
              generated := collection.accepted.map (·.name)
              rejections := collection.rejections } := by
  have hfind : ∀ headers, (findHeaders s o.root o.config.settings.pattern
      [o.nativePath, o.bindingPath]).result = .ok headers ↔
      ∃ found, s.discover o.root o.config.settings.pattern o.outputPaths = .ok found ∧
        headers = found.headers := by
    intro headers
    rw [findHeaders, Told.result_bind_eq_ok_iff]
    refine exists_congr fun found => and_congr Told.result_lift_eq_ok_iff ?_
    simp [Told.tellAll, eq_comm]
  constructor
  · intro h
    rw [render] at h
    obtain ⟨headers, hheaders, h⟩ := Told.result_bind_eq_ok_iff.mp h
    obtain ⟨found, hfound, rfl⟩ := (hfind headers).mp hheaders
    obtain ⟨_, -, h⟩ := Told.result_bind_eq_ok_iff.mp h
    obtain ⟨collection, hcollection, h⟩ := Told.result_bind_eq_ok_iff.mp h
    obtain ⟨license, hlicense, h⟩ := Told.result_bind_eq_ok_iff.mp h
    obtain ⟨artifacts', hartifacts, h⟩ := Told.result_bind_eq_ok_iff.mp h
    obtain ⟨_, -, h⟩ := Told.result_bind_eq_ok_iff.mp h
    obtain ⟨_, -, h⟩ := Told.result_bind_eq_ok_iff.mp h
    obtain ⟨rfl, rfl⟩ := Prod.mk.inj (Except.ok.inj h)
    exact ⟨found, collection, license, hfound, hcollection, Told.result_lift_eq_ok_iff.mp hlicense,
      Told.result_lift_eq_ok_iff.mp hartifacts, rfl⟩
  · rintro ⟨found, collection, license, hfound, hcollection, hlicense, hartifacts, rfl⟩
    rw [render]
    refine Told.result_bind_eq_ok_iff.mpr
      ⟨found.headers, (hfind _).mpr ⟨found, hfound, rfl⟩, ?_⟩
    refine Told.result_bind_eq_ok_iff.mpr ⟨(), rfl, ?_⟩
    refine Told.result_bind_eq_ok_iff.mpr ⟨collection, hcollection, ?_⟩
    refine Told.result_bind_eq_ok_iff.mpr
      ⟨license, Told.result_lift_eq_ok_iff.mpr hlicense, ?_⟩
    refine Told.result_bind_eq_ok_iff.mpr
      ⟨artifacts, Told.result_lift_eq_ok_iff.mpr hartifacts, ?_⟩
    exact Told.result_bind_eq_ok_iff.mpr ⟨(), rfl, Told.result_bind_eq_ok_iff.mpr ⟨(), rfl, rfl⟩⟩

/-- **Rendering does not see its outputs**: it gives the same where files are new at the output
paths and nothing but directories elsewhere. -/
theorem render_of_updates {s : Site} {o : Options} {t : Tree} (ht : s.tree.WellFormed)
    (hs : s.tree.LinkFree) (ht' : t.WellFormed) (hs' : t.LinkFree)
    (hupdates : s.tree.Updates t (o.outputPaths.map s.spelled))
    (hdirect : ∀ p ∈ o.outputPaths, s.Direct p) {l : Location} (hl : s.resolve o.root = .ok l)
    (hwalked : ∀ names, t.get? (s.spelled o.root ++ names) = some .directory →
      (names.foldl Path.entry o.root).fits = true)
    (hlicense : s.spelled o.licensePath ∉ o.outputPaths.map s.spelled)
    {artifacts : Emit.Artifacts} {g : Generation}
    (h : (render s o).result = .ok (artifacts, g)) :
    (render (s.withTree t) o).result = .ok (artifacts, g) := by
  obtain ⟨found, collection, license, hfound, hcollection, hread, hartifacts, rfl⟩ :=
    render_eq_ok_iff.mp h
  obtain ⟨found', hfound', hheaders⟩ :=
    Site.exists_discover_of_updates ht hs ht' hs' hupdates hdirect hl hwalked hfound
  have hsame : ∀ p ∈ found.headers, (s.withTree t).readLossy p = s.readLossy p := by
    intro p hp
    obtain ⟨text, htext⟩ := exists_of_scanInto hcollection p hp
    refine Site.readLossy_of_updates hs hs' hupdates ?_ htext
    -- a header that is found stands at no output
    obtain ⟨compiled, _, hcompiled, -⟩ := Site.discover_eq_ok hfound
    obtain ⟨names, ⟨content, hfile⟩, hkept, rfl, -⟩ :=
      (Site.mem_headers_iff ht hs hdirect hl hcompiled hfound).mp hp
    rwa [Site.spelled_foldl_entry ((Site.resolve_eq_ok_iff hs).mp hl).1
      (ht.isName_of_append (Option.isSome_of_eq_some hfile))]
  refine render_eq_ok_iff.mpr ⟨found', collection, license, hfound', ?_,
    Site.readText_of_updates hs hs' hupdates hlicense hread, hartifacts, rfl⟩
  rw [hheaders, scan, scanInto_congr hsame]
  exact hcollection

end Run

end ArgumentSchemes
