import ArgumentSchemes.Proofs.JsonText
import ArgumentSchemes.Proofs.ListedHeaders
import ArgumentSchemes.Proofs.ParameterLists

/-!
# What a listing says

A plain listing is read from its last line: that one gives the counts, and above it a line that
begins with a blank is an entry of the scheme whose line is the next one further up
(`readListing?`). The names in accepted schemes are words, so every part of a line ends at the mark
behind it. The rejections are shown as diagnostics, in order.

A listing in JSON is one value, and the text of a value determines it (`Json.pretty_injective`). So
two listings with the same text show the same schemes and the same rejections
(`listingJson_determines`).

Main statement: what a listing tells of the headers of a site is read back from it
(`listing_read_back`).
-/

namespace ArgumentSchemes.Command

open Files (Path Site)
open Header (Checker Printable printable_of_mem_parse)
open Report (Diagnostic Event Json Told)
open Run (Collection Rejection)
open Text

/-! ### Readers -/

/-- What a plain listing says of a scheme. -/
structure ListedScheme where
  /-- The header, as it is shown. -/
  file : String
  name : String
  role : Role
  group : String
  /-- How many entries the scheme is said to have. -/
  arity : Nat
  entries : List Entry
deriving DecidableEq

/-- The line `name (role) [group]: n entries (file)`. -/
def readHead? (line : String) : Option ListedScheme := do
  let (name, rest) ← cutAt? " (" line
  let (role, rest) ← cutAt? ") [" rest
  let (group, rest) ← cutAt? "]: " rest
  let (arity, file) ← cutAt? " entries (" rest
  return {
    name, group, role := ← Role.ofName? role, arity := ← number? arity
    file := ← between? "" ")" file, entries := [] }

/-- An indented line with the name of an argument, its constant and its documentation. -/
def readEntry? (line : String) : Option Entry := do
  let (argName, rest) ← cutAt? "  " (← between? "  " "" line)
  let (constant, doc) ← cutAt? "  " (String.ofList (rest.toList.dropWhile (· == ' ')))
  return { argName, constant, doc }

/-- The schemes in lines, and the entries in front of the first of them. -/
def readSchemes? : List String → Option (List Entry × List ListedScheme)
  | [] => some ([], [])
  | line :: lines => do
    let (entries, schemes) ← readSchemes? lines
    if line.toList.head? = some ' ' then return ((← readEntry? line) :: entries, schemes)
    else return ([], { (← readHead? line) with entries } :: schemes)

/-- What a plain listing says. -/
structure ListingReading where
  schemes : List ListedScheme
  accepted : Nat
  rejected : Nat
  headers : Nat
deriving DecidableEq

/-- The schemes in the lines of a plain listing, and the counts in the last of them. -/
def readListing? (lines : List String) : Option ListingReading := do
  let (_, schemes) ← readSchemes? lines.dropLast
  let (accepted, rest) ← cutAt? " scheme(s), " (← lines.getLast?)
  let (rejected, headers) ← cutAt? " rejected, in " rest
  return {
    schemes, accepted := ← number? accepted, rejected := ← number? rejected
    headers := ← number? (← between? "" " header(s)" headers) }

/-! ### Plain listings -/

/-- What a listing says of a scheme in the header at a path. -/
def listed (s : Site) (p : Path) (scheme : Scheme) : ListedScheme where
  file := s.display p
  name := scheme.name
  role := scheme.role
  group := scheme.group
  arity := scheme.arity
  entries := scheme.entries

section Lines

variable {s : Site} {p : Path} {scheme : Scheme}

theorem not_mem_digits {c : Char} (hc : c.isDigit = false) (n : Nat) : c ∉ (toString n).toList := by
  simpa using not_mem_toDigits hc n

/-- The line of a scheme, part by part. -/
def headLine (s : Site) (p : Path) (scheme : Scheme) : String :=
  scheme.name ++ " (" ++ (scheme.role.name ++ ") [" ++ (scheme.group ++ "]: " ++
    (toString scheme.arity ++ " entries (" ++ ("" ++ s.display p ++ ")"))))

theorem readHead?_headLine (hname : IsWord scheme.name.toList)
    (hgroup : IsWord scheme.group.toList) :
    readHead? (headLine s p scheme) = some { listed s p scheme with entries := [] } := by
  have hrole : ')' ∉ scheme.role.name.toList := by cases scheme.role <;> decide
  have hbracket : ']' ∉ scheme.group.toList := hgroup.not_mem (by decide)
  have hsize : ' ' ∉ (toString scheme.arity).toList := not_mem_digits (by decide) _
  rw [headLine, readHead?, cutAt?_append (hname.not_mem (by decide)) " (" rfl]
  simp only [Option.bind_eq_bind, Option.bind_some, cutAt?_append hrole ") [" rfl,
    cutAt?_append hbracket "]: " rfl, cutAt?_append hsize " entries (" rfl, Role.ofName?_name,
    number?_toString, between?_append]
  rfl

end Lines

/-- The line of an entry, its name padded to a width. -/
def entryLine (width : Nat) (e : Entry) : String :=
  "  " ++ (padRight width e.argName ++ "  " ++ e.constant ++ "  " ++ e.doc)

theorem schemeLines_eq (s : Site) (p : Path) (scheme : Scheme) :
    schemeLines s p scheme =
      headLine s p scheme :: scheme.entries.map (entryLine scheme.widestArgName) := by
  have hentries : " entries (" = " entries" ++ " (" := rfl
  rw [schemeLines]
  congr 1
  rw [headLine, hentries]
  simp [Scheme.describe, toString, String.append_assoc]

theorem dropWhile_replicate_append (k : Nat) {cs : List Char} (h : cs.head? ≠ some ' ') :
    (List.replicate k ' ' ++ cs).dropWhile (· == ' ') = cs := by
  induction k with
  | zero =>
    cases cs with
    | nil => rfl
    | cons c cs => simpa using h
  | succ k ih => rwa [List.replicate_succ, List.cons_append, List.dropWhile_cons_of_pos rfl]

/-- Blanks in front of two blanks might as well stand behind them. -/
theorem padRight_append (width : Nat) (text rest : String) :
    padRight width text ++ "  " ++ rest =
      text ++ "  " ++ (String.ofList (List.replicate (width - text.length) ' ') ++ rest) := by
  have hcomm : List.replicate (width - text.length) ' ' ++ List.replicate 2 ' ' =
      List.replicate 2 ' ' ++ List.replicate (width - text.length) ' ' := by
    rw [List.replicate_append_replicate, List.replicate_append_replicate, Nat.add_comm]
  have htwo : "  ".toList = List.replicate 2 ' ' := rfl
  rw [← String.toList_inj]
  simp only [padRight, String.toList_append, String.toList_ofList, htwo]
  rw [List.append_assoc text.toList, hcomm]
  simp only [List.append_assoc]

/-- A text that begins with a word does not begin with a blank. -/
theorem head?_append_ne {word : String} (h : IsWord word.toList) (rest : String) :
    (word ++ rest).toList.head? ≠ some ' ' := by
  obtain ⟨c, cs, hword⟩ := List.exists_cons_of_ne_nil h.ne_nil
  rw [String.toList_append, hword, List.cons_append, List.head?_cons]
  rintro ⟨⟩
  exact h.not_mem (by decide) (hword ▸ List.mem_cons_self)

theorem readEntry?_entryLine (width : Nat) {e : Entry} (hargName : IsWord e.argName.toList)
    (hconstant : IsWord e.constant.toList) : readEntry? (entryLine width e) = some e := by
  have hblank : isWordChar ' ' = false := by decide
  have hline : entryLine width e = "  " ++ (e.argName ++ "  " ++
      (String.ofList (List.replicate (width - e.argName.length) ' ') ++
        (e.constant ++ "  " ++ e.doc))) ++ "" := by
    rw [entryLine, ← padRight_append, String.append_empty]
    simp only [String.append_assoc]
  have hfirst : (e.constant ++ "  " ++ e.doc).toList.head? ≠ some ' ' := by
    rw [String.append_assoc]
    exact head?_append_ne hconstant _
  have hrest : String.ofList ((String.ofList (List.replicate (width - e.argName.length) ' ') ++
      (e.constant ++ "  " ++ e.doc)).toList.dropWhile (· == ' ')) =
        e.constant ++ "  " ++ e.doc := by
    rw [String.toList_append, String.toList_ofList, dropWhile_replicate_append _ hfirst,
      String.ofList_toList]
  rw [hline, readEntry?, between?_append]
  simp only [Option.bind_eq_bind, Option.bind_some,
    cutAt?_append (hargName.not_mem hblank) "  " rfl, hrest,
    cutAt?_append (hconstant.not_mem hblank) "  " rfl]
  rfl

section Schemes

variable {rest : List String} {entries : List Entry} {schemes : List ListedScheme}

theorem readSchemes?_entries (width : Nat) {es : List Entry}
    (hes : ∀ e ∈ es, Header.Entry.Printable e)
    (h : readSchemes? rest = some (entries, schemes)) :
    readSchemes? (es.map (entryLine width) ++ rest) = some (es ++ entries, schemes) := by
  induction es with
  | nil => exact h
  | cons e es ih =>
    have he := hes e List.mem_cons_self
    have hread := readEntry?_entryLine width he.argName he.constant
    have hindent : (entryLine width e).toList.head? = some ' ' := by
      simp [entryLine]
    rw [List.map_cons, List.cons_append, readSchemes?,
      ih fun e' he' => hes e' (List.mem_cons_of_mem e he')]
    simp only [Option.bind_eq_bind, Option.bind_some, if_pos hindent, hread]
    rfl

/-- The lines of a scheme are read as the scheme. -/
theorem readSchemes?_schemeLines {checker : Checker} {s : Site} {p : Path} {scheme : Scheme}
    (hprintable : Printable checker scheme) (h : readSchemes? rest = some ([], schemes)) :
    readSchemes? (schemeLines s p scheme ++ rest) = some ([], listed s p scheme :: schemes) := by
  have hentries := readSchemes?_entries scheme.widestArgName hprintable.entries h
  have hhead := readHead?_headLine (s := s) (p := p) hprintable.name hprintable.group
  have hindent : (headLine s p scheme).toList.head? ≠ some ' ' := by
    rw [headLine, String.append_assoc]
    exact head?_append_ne hprintable.name _
  rw [schemeLines_eq, List.cons_append, readSchemes?, hentries]
  simp only [Option.bind_eq_bind, Option.bind_some, if_neg hindent, hhead, List.append_nil]
  rfl

/-- The lines of schemes are read as the schemes, in order. -/
theorem readSchemes?_flatMap {checker : Checker} (s : Site) {found : List (Path × Scheme)}
    (h : ∀ x ∈ found, Printable checker x.2) :
    readSchemes? (found.flatMap fun (p, scheme) => schemeLines s p scheme) =
      some ([], found.map fun (p, scheme) => listed s p scheme) := by
  induction found with
  | nil => rfl
  | cons x found ih =>
    rw [List.flatMap_cons, List.map_cons]
    exact readSchemes?_schemeLines (h x List.mem_cons_self)
      (ih fun y hy => h y (List.mem_cons_of_mem x hy))

end Schemes

/-- The lines that are printed. -/
def printedLines (events : List Event) : List String :=
  events.filterMap fun
    | .printed line => some line
    | _ => none

/-- The diagnostics that are shown. -/
def shownDiagnostics (events : List Event) : List Diagnostic :=
  events.filterMap fun
    | .shown d => some d
    | _ => none

/-- A plain listing prints the lines of the schemes and the counts, and shows the rejections. -/
theorem events_reportCollection (s : Site) (c : Collection) :
    printedLines (reportCollection s c).events =
      (c.schemes.flatMap fun (p, scheme) => schemeLines s p scheme) ++
        [toString c.schemes.length ++ " scheme(s), " ++ (toString c.rejections.length ++
          " rejected, in " ++ ("" ++ toString c.filesScanned ++ " header(s)"))] ∧
      shownDiagnostics (reportCollection s c).events = c.rejections.map Rejection.diagnostic := by
  have hrejected : " rejected, in " = " rejected, " ++ "in " := rfl
  have hevents : (reportCollection s c).events =
      (c.schemes.flatMap fun (p, scheme) => schemeLines s p scheme).map .printed ++
        (c.rejections.map (fun r => .shown r.diagnostic) ++
          [.printed (toString c.schemes.length ++ " scheme(s), " ++
            (toString c.rejections.length ++ " rejected, in " ++
              ("" ++ toString c.filesScanned ++ " header(s)")))]) := by
    simp only [reportCollection, showRejections, Told.tellAll, Told.tell, Told.ok_bind, toString,
      String.append_assoc, String.empty_append, List.append_cancel_left_eq, List.cons.injEq,
      Event.printed.injEq, String.append_right_inj, and_true]
    rw [hrejected, String.append_assoc]
  rw [hevents]
  constructor
  · simp [printedLines, List.filterMap_append, List.filterMap_map]
  · simp [shownDiagnostics, List.filterMap_append, List.filterMap_map]

/-- **A plain listing** is read as the collection that it lists. -/
theorem readListing?_reportCollection {checker : Checker} (s : Site) {c : Collection}
    (h : ∀ x ∈ c.schemes, Printable checker x.2) :
    readListing? (printedLines (reportCollection s c).events) =
      some
        { schemes := c.schemes.map fun (p, scheme) => listed s p scheme
          accepted := c.schemes.length, rejected := c.rejections.length
          headers := c.filesScanned } := by
  have haccepted : ' ' ∉ (toString c.schemes.length).toList := not_mem_digits (by decide) _
  have hrejected : ' ' ∉ (toString c.rejections.length).toList := not_mem_digits (by decide) _
  rw [(events_reportCollection s c).1, readListing?, List.dropLast_concat, List.getLast?_concat,
    readSchemes?_flatMap s h]
  simp only [Option.bind_eq_bind, Option.bind_some, cutAt?_append haccepted " scheme(s), " rfl,
    cutAt?_append hrejected " rejected, in " rfl, number?_toString, between?_append]
  rfl

/-! ### Listings in JSON -/

/-- The schemes of a listing, each with its header as it is shown. -/
def shownSchemes (s : Site) (c : Collection) : List (String × Scheme) :=
  c.schemes.map fun (p, scheme) => (s.display p, scheme)

/-- The rejections of a listing: the header as it is shown, the name of the scheme and what is wrong
with it. -/
def shownRejections (s : Site) (c : Collection) : List (String × String × String) :=
  c.rejections.map fun r => (s.display r.path, r.fault.scheme, r.fault.message)

/-- Where equal forms have equal contents, lists of equal forms have equal lists of contents. -/
theorem map_eq_map_of_imp {α β γ δ : Type} {form : α → γ} {form' : β → γ} {content : α → δ}
    {content' : β → δ} {xs : List α} {ys : List β}
    (himp : ∀ x y, form x = form' y → content x = content' y) (h : xs.map form = ys.map form') :
    xs.map content = ys.map content' := by
  induction xs generalizing ys with
  | nil =>
    cases ys with
    | nil => rfl
    | cons y ys => cases h
  | cons x xs ih =>
    cases ys with
    | nil => cases h
    | cons y ys =>
      obtain ⟨hhead, htail⟩ := List.cons.inj h
      rw [List.map_cons, List.map_cons, himp x y hhead, ih htail]

section Json

variable {s s' : Site}

theorem toLower_roleName_inj {role role' : Role} (h : role.name.toLower = role'.name.toLower) :
    role = role' := by
  cases role <;> cases role' <;> first | rfl | exact absurd h (by decide +kernel)

/-- The form of a scheme determines the header that is shown, and the scheme. -/
theorem schemeJson_inj {p p' : Path} {scheme scheme' : Scheme}
    (h : schemeJson s p scheme = schemeJson s' p' scheme') :
    (s.display p, scheme) = (s'.display p', scheme') := by
  simp only [schemeJson, Json.object.injEq, List.cons.injEq, Prod.mk.injEq, Json.text.injEq,
    Json.list.injEq, true_and, and_true] at h
  obtain ⟨hfile, hrole, hname, htitle, hsummary, hgroup, hentries⟩ := h
  have hsame : scheme.entries = scheme'.entries := by
    rw [← List.map_id scheme.entries, ← List.map_id scheme'.entries]
    refine map_eq_map_of_imp (fun e e' he => ?_) hentries
    simp only [Json.object.injEq, List.cons.injEq, Prod.mk.injEq, Json.text.injEq, true_and,
      and_true] at he
    obtain ⟨hargName, hdoc, hconstant⟩ := he
    exact (Entry.mk.injEq ..).mpr ⟨hargName, hdoc, hconstant⟩
  rw [hfile]
  congr 1
  exact (Scheme.mk.injEq ..).mpr
    ⟨toLower_roleName_inj hrole, hname, htitle, hsummary, hgroup, hsame⟩

/-- The form of a rejection determines what is shown of it. -/
theorem rejectionJson_inj {r r' : Rejection} (h : rejectionJson s r = rejectionJson s' r') :
    (s.display r.path, r.fault.scheme, r.fault.message) =
      (s'.display r'.path, r'.fault.scheme, r'.fault.message) := by
  simpa [rejectionJson] using h

/-- **A listing in JSON** determines the schemes and the rejections that it shows: two listings with
the same text show the same. -/
theorem listingJson_determines {c c' : Collection}
    (h : (listingJson s c).pretty = (listingJson s' c').pretty) :
    shownSchemes s c = shownSchemes s' c' ∧ shownRejections s c = shownRejections s' c' := by
  have hvalues := Json.pretty_injective h
  simp only [listingJson, Json.object.injEq, List.cons.injEq, Prod.mk.injEq, Json.list.injEq,
    true_and, and_true] at hvalues
  obtain ⟨hschemes, hrejections⟩ := hvalues
  exact ⟨map_eq_map_of_imp (fun _ _ => schemeJson_inj) hschemes,
    map_eq_map_of_imp (fun _ _ => rejectionJson_inj) hrejections⟩

end Json

/-! ### What is told of headers -/

/-- Every scheme that headers come to carries along what its lines were. -/
theorem printable_of_mem_ofHeaders {s : Site} {checker : Checker} {paths : List Path}
    {x : Path × Scheme} (h : x ∈ (Collection.ofHeaders s checker paths).schemes) :
    Printable checker x.2 := by
  obtain ⟨p, -, hp⟩ := List.mem_flatMap.mp h
  obtain ⟨item, hitem, hkept⟩ := List.mem_filterMap.mp hp
  obtain ⟨rfl, -⟩ := Run.kept?_eq_some_iff.mp hkept
  obtain ⟨text, -, hmem⟩ := Run.mem_itemsAt_iff.mp hitem
  exact printable_of_mem_parse hmem

/-- **What a listing tells of headers** is read back. From the lines of a plain one come all schemes
in order, each with its header, role, group, size and entries, and how many schemes, rejections and
headers there are; next to these lines stand the diagnostics of the rejections, in order. In JSON
the listing is one text, and no listing that shows other schemes or other rejections has the same
text. -/
theorem listing_read_back (s : Site) (checker : Checker) (paths : List Path) :
    let c := Collection.ofHeaders s checker paths
    readListing? (printedLines (tellListing s false c).events) =
        some
          { schemes := c.schemes.map fun (p, scheme) => listed s p scheme
            accepted := c.schemes.length, rejected := c.rejections.length
            headers := paths.length } ∧
      shownDiagnostics (tellListing s false c).events = c.rejections.map Rejection.diagnostic ∧
      ∃ text, (tellListing s true c).events = [.printed text] ∧
        ∀ (s' : Site) (c' : Collection), (tellListing s' true c').events = [.printed text] →
          shownSchemes s' c' = shownSchemes s c ∧ shownRejections s' c' = shownRejections s c := by
  intro c
  refine ⟨?_, (events_reportCollection s c).2, (listingJson s c).pretty, rfl, ?_⟩
  · exact readListing?_reportCollection s fun _ => printable_of_mem_ofHeaders
  · intro s' c' htold
    exact listingJson_determines (Event.printed.inj (List.cons.inj htold).1)

end ArgumentSchemes.Command
