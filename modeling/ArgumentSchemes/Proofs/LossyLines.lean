import ArgumentSchemes.Proofs.InertLines
import ArgumentSchemes.Text.Utf8

/-!
# Bytes that are not UTF-8, line by line

A byte of a longer character is never a newline, and no longer character is one. So whatever a
reading still owes when a newline comes, it gives up there, and goes on as from the beginning
(`Decoding.push_newline`); the invariant is that an unfinished character asks for a byte above ASCII
and has too many bits already to come to a newline (`Pending.BeyondNewline`). Hence a text is split
into the same lines before it is decoded and after it (`splitOn_decodeLossy`).

Main statement: flawed or not, what stands on a line that the reader passes over outside any scheme
has no bearing on the items of a header (`flaws_stay_on_their_lines`).
-/

namespace ArgumentSchemes

namespace Text

/-! ### Bytes that are read -/

/-- The character asks for a byte above ASCII, and what has been read of it is too much for a
newline. -/
structure Pending.BeyondNewline (p : Pending) : Prop where
  low : 0x80 ≤ p.low
  bits : 0xB ≤ p.bits * 64 + (p.low - 0x80)

theorem Lead.beyondNewline_of_opens {b : Nat} {p : Pending} (h : Lead.ofByte b = .opens p) :
    p.BeyondNewline := by
  revert h
  fun_cases ofByte b <;> rintro ⟨⟩ <;> constructor <;> simp only <;> omega

theorem eq_newline_of_ofNat {n : Nat} (h : Char.ofNat n = '\n') : n = 0x0A := by
  have hchar := congrArg Char.toNat h
  by_cases hn : n.isValidChar
  · rw [Char.ofNat, dif_pos hn] at hchar
    exact hchar
  · rw [Char.ofNat, dif_neg hn] at hchar
    cases hchar

theorem Lead.eq_newline_of_char {b : Nat} (h : Lead.ofByte b = .char '\n') : b = 0x0A := by
  revert h
  fun_cases ofByte b
  case case1 => exact fun h => eq_newline_of_ofNat (Lead.char.inj h)
  all_goals nofun

namespace Decoding

/-- What is unfinished, if anything is, does not come to a newline. -/
def BeyondNewline (d : Decoding) : Prop := ∀ p, d.pending = some p → p.BeyondNewline

theorem beyondNewline_start (read : List (Option Char)) (b : Nat) :
    (start read b).BeyondNewline := by
  intro p hp
  rw [start] at hp
  split at hp
  · cases hp
  · next hopens =>
    obtain rfl := Option.some.inj hp
    exact Lead.beyondNewline_of_opens hopens
  · cases hp

theorem BeyondNewline.push {d : Decoding} (h : d.BeyondNewline) (byte : UInt8) :
    (d.push byte).BeyondNewline := by
  rw [Decoding.push]
  split
  · exact beyondNewline_start _ _
  · next p hp =>
    have hbits := (h p hp).bits
    simp only
    split
    · split
      · exact fun p' hp' => by cases hp'
      · intro p' hp'
        obtain rfl := Option.some.inj hp'
        constructor <;> simp only <;> omega
    · exact beyondNewline_start _ _

theorem BeyondNewline.foldl_push {d : Decoding} (h : d.BeyondNewline) (bytes : List UInt8) :
    (bytes.foldl Decoding.push d).BeyondNewline := by
  induction bytes generalizing d with
  | nil => exact h
  | cons byte bytes ih => exact ih (h.push byte)

/-- **A newline** ends whatever is unfinished, and is read as itself. -/
theorem push_newline {d : Decoding} (h : d.BeyondNewline) :
    d.push 0x0A = ⟨some '\n' :: d.finish.reverse, none⟩ := by
  have hstart : ∀ read, start read 0x0A = ⟨some '\n' :: read, none⟩ := fun _ => rfl
  rw [push, finish]
  split
  · simp [hstart]
  · next p hp =>
    have hlow := (h p hp).low
    have hbyte : (0x0A : UInt8).toNat = 0x0A := rfl
    simp only [hbyte]
    rw [if_neg (by omega), hstart]
    simp

theorem newline_not_mem_start {read : List (Option Char)} (h : some '\n' ∉ read) {b : Nat}
    (hb : b ≠ 0x0A) : some '\n' ∉ (start read b).read := by
  rw [start]
  split
  · next c hc =>
    rintro (_ | ⟨_, hmem⟩)
    · exact hb (Lead.eq_newline_of_char hc)
    · exact h hmem
  · exact h
  · simpa using h

/-- **No other byte** is read as a newline or completes one. -/
theorem newline_not_mem_push {d : Decoding} (h : d.BeyondNewline) (hread : some '\n' ∉ d.read)
    {byte : UInt8} (hbyte : byte ≠ 0x0A) : some '\n' ∉ (d.push byte).read := by
  have hb : byte.toNat ≠ 0x0A := fun heq => hbyte (UInt8.toNat_inj.mp heq)
  rw [push]
  split
  · exact newline_not_mem_start hread hb
  · next p hp =>
    obtain ⟨hlow, hbits⟩ := h p hp
    simp only
    split
    · split
      · intro hmem
        rcases List.mem_cons.mp hmem with heq | hmem
        · have := eq_newline_of_ofNat (Option.some.inj heq).symm
          omega
        · exact hread hmem
      · exact hread
    · exact newline_not_mem_start (by simpa using hread) hb

/-- The same reading with `before` read in front of it. -/
def behind (d : Decoding) (before : List (Option Char)) : Decoding :=
  ⟨d.read ++ before, d.pending⟩

theorem start_behind (read before : List (Option Char)) (b : Nat) :
    start (read ++ before) b = (start read b).behind before := by
  rw [start, start]
  split <;> rfl

theorem push_behind (d : Decoding) (before : List (Option Char)) (byte : UInt8) :
    (d.behind before).push byte = (d.push byte).behind before := by
  obtain ⟨read, _ | p⟩ := d
  · exact start_behind read before byte.toNat
  · simp only [push, behind]
    split
    · split <;> rfl
    · exact start_behind (none :: read) before byte.toNat

theorem foldl_push_behind (d : Decoding) (before : List (Option Char)) (bytes : List UInt8) :
    bytes.foldl push (d.behind before) = (bytes.foldl push d).behind before := by
  induction bytes generalizing d with
  | nil => rfl
  | cons byte bytes ih => rw [List.foldl_cons, push_behind, ih, List.foldl_cons]

theorem finish_behind (d : Decoding) (before : List (Option Char)) :
    (d.behind before).finish = before.reverse ++ d.finish := by
  obtain ⟨read, _ | p⟩ := d <;> simp [finish, behind]

end Decoding

/-! ### Texts that are read -/

/-- Bytes without a newline are read as a text without one. -/
theorem newline_not_mem_decodePieces {bytes : List UInt8} (h : 0x0A ∉ bytes) :
    some '\n' ∉ decodePieces bytes := by
  have hread : ∀ d : Decoding, d.BeyondNewline → some '\n' ∉ d.read →
      some '\n' ∉ (bytes.foldl Decoding.push d).read := by
    induction bytes with
    | nil => exact fun _ _ hread => hread
    | cons byte bytes ih =>
      obtain ⟨hbyte, hbytes⟩ := List.ne_and_not_mem_of_not_mem_cons h
      exact fun d hd hread =>
        ih hbytes (d.push byte) (hd.push byte) (Decoding.newline_not_mem_push hd hread hbyte.symm)
  have hmem := hread {} (fun _ hp => by cases hp) (by simp)
  rw [decodePieces, Decoding.finish]
  split <;> simpa using hmem

/-- **Across a newline** nothing is owed: what stands before it and what stands behind it are read
each on its own. -/
theorem decodePieces_append_newline (front back : List UInt8) :
    decodePieces (front ++ 0x0A :: back) =
      decodePieces front ++ some '\n' :: decodePieces back := by
  have hbeyond : (front.foldl Decoding.push {}).BeyondNewline :=
    Decoding.BeyondNewline.foldl_push (fun _ hp => by cases hp) front
  have hbehind : ∀ read : List (Option Char),
      (⟨read, none⟩ : Decoding) = Decoding.behind {} read := fun _ => rfl
  rw [decodePieces, List.foldl_append, List.foldl_cons, Decoding.push_newline hbeyond, hbehind,
    Decoding.foldl_push_behind, Decoding.finish_behind]
  simp [decodePieces]

theorem toList_decodeLossy_append_newline (front back : List UInt8) :
    (decodeLossy (front ++ 0x0A :: back)).toList =
      (decodeLossy front).toList ++ '\n' :: (decodeLossy back).toList := by
  simp [decodeLossy, decodePieces_append_newline]

theorem newline_not_mem_decodeLossy {bytes : List UInt8} (h : 0x0A ∉ bytes) :
    '\n' ∉ (decodeLossy bytes).toList := by
  rw [decodeLossy, String.toList_ofList, List.mem_map]
  rintro ⟨_ | c, hc, heq⟩
  · exact absurd heq (by decide)
  · obtain rfl : c = '\n' := heq
    exact newline_not_mem_decodePieces h hc

/-- The text of lines that are read one by one is that of the lines read together. -/
theorem toList_decodeLossy_intercalate (ls : List (List UInt8)) :
    (decodeLossy ([0x0A].intercalate ls)).toList =
      ['\n'].intercalate (ls.map fun l => (decodeLossy l).toList) := by
  induction ls with
  | nil => rfl
  | cons l ls ih =>
    cases ls with
    | nil => simp
    | cons l' ls =>
      have hcons : [0x0A].intercalate (l :: l' :: ls) =
          l ++ 0x0A :: [0x0A].intercalate (l' :: ls) := by
        simp [List.intercalate_cons_cons]
      rw [hcons, toList_decodeLossy_append_newline, ih]
      simp [List.intercalate_cons_cons]

/-- A separator stands in none of the pieces between separators. -/
theorem separator_not_mem_of_mem_splitOn {α : Type} [BEq α] [LawfulBEq α] {a : α} {xs : List α} :
    ∀ piece ∈ xs.splitOn a, a ∉ piece := by
  by_cases hmem : a ∈ xs
  · obtain ⟨front, back, rfl, hfront⟩ := List.eq_append_cons_of_mem hmem
    have ih := @separator_not_mem_of_mem_splitOn _ _ _ a back
    rw [List.splitOn_append_cons_self, List.splitOn_eq_singleton hfront]
    rintro piece (_ | ⟨_, hpiece⟩)
    · exact hfront
    · exact ih piece hpiece
  · rw [List.splitOn_eq_singleton hmem]
    rintro piece (_ | ⟨_, ⟨⟩⟩)
    exact hmem
termination_by xs.length

/-- **The lines of bytes**: they are read each on its own, whatever flaws they have. -/
theorem splitOn_decodeLossy (bytes : List UInt8) :
    ((decodeLossy bytes).toList.splitOn '\n').map String.ofList =
      (bytes.splitOn 0x0A).map decodeLossy := by
  have hpieces : ∀ l ∈ (bytes.splitOn 0x0A).map fun piece => (decodeLossy piece).toList,
      '\n' ∉ l := by
    intro l hl
    obtain ⟨piece, hpiece, rfl⟩ := List.mem_map.mp hl
    exact newline_not_mem_decodeLossy (separator_not_mem_of_mem_splitOn piece hpiece)
  have hsplit : (decodeLossy bytes).toList.splitOn '\n' =
      (bytes.splitOn 0x0A).map fun piece => (decodeLossy piece).toList := by
    conv_lhs =>
      rw [← @List.intercalate_splitOn _ bytes _ _ 0x0A, toList_decodeLossy_intercalate]
    exact List.splitOn_intercalate _ hpieces (by simp [List.splitOn_ne_nil])
  simp [hsplit]

end Text

namespace Header

open Text

/-! ### Lines outside any scheme -/

/-- A line that opens no scheme, met outside any scheme, can be any other such line. -/
theorem State.run_set_of_idle {s : State} {number i : Nat} {ls : List Line} {line new : Line}
    (hline : ls[i]? = some line) (hidle : s.after number (ls.take i) = idle)
    (hopening : line.isOpening = false) (hnew : new.isOpening = false) :
    s.after number (ls.set i new) = s.after number ls ∧
      s.drafts number (ls.set i new) = s.drafts number ls := by
  obtain ⟨hi, hget⟩ := List.getElem?_eq_some_iff.mp hline
  have hls : ls = ls.take i ++ line :: ls.drop (i + 1) := by
    rw [← hget, ← List.drop_eq_getElem_cons hi, List.take_append_drop]
  have hset : ls.set i new = ls.take i ++ new :: ls.drop (i + 1) :=
    List.set_eq_take_append_cons_drop.trans (if_pos hi)
  constructor
  · conv_rhs => rw [hls]
    rw [hset, after_append, after_append, hidle, after, after, step_idle hopening, step_idle hnew]
  · conv_rhs => rw [hls]
    rw [hset, drafts_append, drafts_append, hidle, drafts, drafts, step_idle hopening,
      step_idle hnew]

/-! ### Headers that are read from bytes -/

/-- Lines with nothing around them, the last one not ended. -/
theorem toList_laidOut_bare (texts : List String) :
    (laidOut false (texts.map fun text => { text })).toList =
      ['\n'].intercalate (texts.map String.toList) := by
  induction texts with
  | nil => rfl
  | cons text texts ih =>
    cases texts with
    | nil => simp [laidOut, Placed.body]
    | cons text' texts =>
      simp only [List.map_cons] at ih ⊢
      rw [laidOut, String.toList_append, ih]
      · simp [Placed.body, Placed.ending, List.intercalate_cons_cons]
      · simp

/-- The kinds of lines that are read one by one. Only an empty last line is none. -/
theorem kinds_decodeLossy_intercalate {ls : List (List UInt8)} (h : ∀ l ∈ ls, 0x0A ∉ l) :
    (ls.map fun l => Line.classify (decodeLossy l)) =
        kinds (decodeLossy ([0x0A].intercalate ls)) ∨
      (ls.map fun l => Line.classify (decodeLossy l)) =
        kinds (decodeLossy ([0x0A].intercalate ls)) ++ [.other] := by
  let placed : List Placed := (ls.map decodeLossy).map fun text => { text }
  have hplaced : ∀ l ∈ placed, l.InBlanks ∧ '\n' ∉ l.text.toList := by
    intro l hl
    obtain ⟨text, htext, rfl⟩ := List.mem_map.mp hl
    obtain ⟨piece, hpiece, rfl⟩ := List.mem_map.mp htext
    exact ⟨⟨by simp, by simp⟩, newline_not_mem_decodeLossy (h piece hpiece)⟩
  have htext : laidOut false placed = decodeLossy ([0x0A].intercalate ls) := by
    rw [← String.toList_inj, toList_laidOut_bare, toList_decodeLossy_intercalate, List.map_map]
    rfl
  have hkinds : placed.map (Line.classify ·.text) =
      ls.map fun l => Line.classify (decodeLossy l) := by
    simp [placed, Function.comp_def]
  rw [← hkinds, ← htext]
  exact kinds_laidOut false hplaced

/-- The items of a header of which the lines are read one by one. -/
theorem parse_decodeLossy_intercalate (checker : Checker) {ls : List (List UInt8)}
    (h : ∀ l ∈ ls, 0x0A ∉ l) :
    checker.parse (decodeLossy ([0x0A].intercalate ls)) =
      (State.idle.drafts 1 (ls.map fun l => Line.classify (decodeLossy l))).map checker.check ++
        (State.idle.after 1
          (ls.map fun l => Line.classify (decodeLossy l))).finish.toList.map .error := by
  rw [checker.parse_eq]
  rcases kinds_decodeLossy_intercalate h with hkinds | hkinds
  · rw [hkinds]
  · obtain ⟨hdrafts, hfinish⟩ :=
      State.run_concat_other 1 (kinds (decodeLossy ([0x0A].intercalate ls)))
    rw [hkinds, hdrafts, hfinish]

/-- The bytes of a file with `new` in the place of its line of index `i`. -/
def replaceLine (bytes : List UInt8) (i : Nat) (new : List UInt8) : List UInt8 :=
  [0x0A].intercalate ((bytes.splitOn 0x0A).set i new)

/-- **Flaws stay on their lines.** Bytes are split into the same lines before they are read and
after it. So where no scheme is open a line that opens none can be replaced by any bytes that open
none, flawed or not, and the items of the header stay the same. -/
theorem flaws_stay_on_their_lines :
    (∀ bytes : List UInt8,
      ((decodeLossy bytes).toList.splitOn '\n').map String.ofList =
        (bytes.splitOn 0x0A).map decodeLossy) ∧
    ∀ (checker : Checker) (bytes new : List UInt8) (i : Nat) (line : String),
      (lines (decodeLossy bytes))[i]? = some line →
      State.idle.after 1 ((kinds (decodeLossy bytes)).take i) = .idle →
      (Line.classify line).isOpening = false →
      0x0A ∉ new → (Line.classify (decodeLossy new)).isOpening = false →
      checker.parse (decodeLossy (replaceLine bytes i new)) =
        checker.parse (decodeLossy bytes) := by
  refine ⟨splitOn_decodeLossy, ?_⟩
  intro checker bytes new i line hline hidle hopening hnew hnewOpening
  have hpieces : ∀ l ∈ bytes.splitOn 0x0A, 0x0A ∉ l := separator_not_mem_of_mem_splitOn
  have hreplaced : ∀ l ∈ (bytes.splitOn 0x0A).set i new, 0x0A ∉ l := by
    intro l hl
    rcases List.mem_or_eq_of_mem_set hl with hl | rfl
    · exact hpieces l hl
    · exact hnew
  let kind : List UInt8 → Line := fun l => Line.classify (decodeLossy l)
  -- up to an empty last line, the pieces of the file are its lines
  obtain ⟨hkind, hfront⟩ : ((bytes.splitOn 0x0A).map kind)[i]? = some (Line.classify line) ∧
      ((bytes.splitOn 0x0A).map kind).take i = (kinds (decodeLossy bytes)).take i := by
    have hget : (kinds (decodeLossy bytes))[i]? = some (Line.classify line) := by
      rw [kinds, List.getElem?_map, hline, Option.map_some]
    have hi := (List.getElem?_eq_some_iff.mp hget).1
    have hkinds := kinds_decodeLossy_intercalate hpieces
    rw [List.intercalate_splitOn] at hkinds
    rcases hkinds with h | h
    · exact ⟨by rw [h, hget], by rw [h]⟩
    · exact ⟨by rw [h, List.getElem?_append_left hi, hget],
        by rw [h, List.take_append_of_le_length hi.le]⟩
  have hnewKind : (kind new).isOpening = false := hnewOpening
  obtain ⟨hafter, hdrafts⟩ :=
    State.run_set_of_idle hkind (hfront ▸ hidle) hopening hnewKind
  have hparse := parse_decodeLossy_intercalate checker hpieces
  rw [List.intercalate_splitOn] at hparse
  rw [replaceLine, parse_decodeLossy_intercalate checker hreplaced, List.map_set, hafter, hdrafts,
    hparse]

/-- Behind a scheme a remark in another encoding makes room for one of which the last character is
cut off right before the newline. -/
theorem flaws_stay_on_their_lines_remark :
    let ascii : String → List UInt8 := fun text => text.toList.map fun c => UInt8.ofNat c.toNat
    let scheme := ascii "/// Input arguments of f [fIn]\nenum fIn \x7b\n/// a [x]\nF_X,\n\x7d;\n"
    let bytes := scheme ++ ascii "// caf" ++ [0xE9] ++ ascii "\r\nint f();\n"
    let new : List UInt8 := [0x2F, 0x2F, 0x20, 0xE2, 0x82]
    (lines (decodeLossy bytes))[5]? = some "// caf\uFFFD" ∧
      State.idle.after 1 ((kinds (decodeLossy bytes)).take 5) = .idle ∧
      (Line.classify "// caf\uFFFD").isOpening = false ∧
      0x0A ∉ new ∧ (Line.classify (decodeLossy new)).isOpening = false ∧
      replaceLine bytes 5 new = scheme ++ new ++ ascii "\nint f();\n" ∧
      Checker.parse {} (decodeLossy (replaceLine bytes 5 new)) =
        [.ok ⟨.input, "fIn", "Input arguments of f", "", "fIn", [⟨"x", "a", "F_X"⟩]⟩] := by
  intro ascii scheme bytes new
  have hline : (lines (decodeLossy bytes))[5]? = some "// caf\uFFFD" := by decide +kernel
  have hidle : State.idle.after 1 ((kinds (decodeLossy bytes)).take 5) = .idle := by
    decide +kernel
  have hopening : (Line.classify "// caf\uFFFD").isOpening = false := by decide +kernel
  have hnew : 0x0A ∉ new := by decide
  have hnewOpening : (Line.classify (decodeLossy new)).isOpening = false := by decide +kernel
  have hreplaced : replaceLine bytes 5 new = scheme ++ new ++ ascii "\nint f();\n" := by
    decide +kernel
  have hparse : Checker.parse {} (decodeLossy bytes) =
      [.ok ⟨.input, "fIn", "Input arguments of f", "", "fIn", [⟨"x", "a", "F_X"⟩]⟩] := by
    decide +kernel
  exact ⟨hline, hidle, hopening, hnew, hnewOpening, hreplaced,
    (flaws_stay_on_their_lines.2 {} bytes new 5 _ hline hidle hopening hnew hnewOpening).trans
      hparse⟩

end Header

end ArgumentSchemes
