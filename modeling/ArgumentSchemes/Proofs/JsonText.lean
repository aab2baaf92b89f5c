import ArgumentSchemes.Report.Json
import Mathlib.Logic.Function.Defs

/-!
# The text of a value determines the value

An escaped character is read back by looking at what follows a backslash (`readChar?_escape`), so a
quoted text ends at the first quote that is not escaped (`quote_append_inj`). The text of a list or
of an object shows by its second character whether there is anything in it, and after every item by
a comma or a newline whether there is another one. So no text of a value goes on as the text of
another one.

Main statement: values with the same text are equal (`pretty_injective`).
-/

namespace ArgumentSchemes.Report.Json

/-! ### Escaped characters -/

/-- The value of a hexadecimal digit in lower case. -/
def hexValue (c : Char) : Nat := if c.isDigit then c.toNat - 0x30 else c.toNat - 0x57

theorem hexValue_hexDigit : ∀ n < 16, hexValue (hexDigit n) = n := by
  decide

/-- The character that a letter behind a backslash stands for. -/
def escaped (mark : Char) : Char :=
  match mark with
  | 'b' => '\x08'
  | 't' => '\t'
  | 'n' => '\n'
  | 'f' => '\x0c'
  | 'r' => '\r'
  | c => c

/-- The first character of an escaped text, and the rest of the text. -/
def readChar? : List Char → Option (Char × List Char)
  | '\\' :: 'u' :: _ :: _ :: high :: low :: rest =>
    some (Char.ofNat (16 * hexValue high + hexValue low), rest)
  | '\\' :: mark :: rest => some (escaped mark, rest)
  | c :: rest => some (c, rest)
  | [] => none

theorem readChar?_of_ne {c : Char} (h : c ≠ '\\') (rest : List Char) :
    readChar? (c :: rest) = some (c, rest) := by
  unfold readChar?
  split
  · next heq => exact absurd (List.cons.inj heq).1 h
  · next heq => exact absurd (List.cons.inj heq).1 h
  · next heq =>
    obtain ⟨rfl, rfl⟩ := List.cons.inj heq
    rfl
  · next heq => cases heq

/-- **An escaped character is read back**, whatever comes behind it. -/
theorem readChar?_escape (c : Char) (rest : List Char) :
    readChar? (escape c ++ rest) = some (c, rest) := by
  unfold escape
  split
  case h_8 _ _ hbackslash _ _ _ _ _ =>
    split
    · next hcontrol =>
      have hvalue : 16 * hexValue (hexDigit (c.toNat / 16)) + hexValue (hexDigit (c.toNat % 16)) =
          c.toNat := by
        rw [hexValue_hexDigit _ (by omega), hexValue_hexDigit _ (by omega)]
        omega
      simp only [List.cons_append, List.nil_append, readChar?, hvalue, Char.ofNat_toNat]
    · exact readChar?_of_ne hbackslash rest
  all_goals rfl

theorem escape_append_inj {c d : Char} {xs ys : List Char} (h : escape c ++ xs = escape d ++ ys) :
    c = d ∧ xs = ys := by
  have hread := readChar?_escape c xs
  rw [h, readChar?_escape] at hread
  obtain ⟨rfl, rfl⟩ := Prod.mk.inj (Option.some.inj hread)
  exact ⟨rfl, rfl⟩

/-- No escaped character begins like the end of a quoted text. -/
theorem escape_append_ne (c : Char) (xs ys : List Char) : escape c ++ xs ≠ '"' :: ys := by
  intro h
  have hread := readChar?_escape c xs
  rw [h, readChar?_of_ne (by decide)] at hread
  obtain ⟨rfl, rfl⟩ := Prod.mk.inj (Option.some.inj hread)
  -- the quote itself is escaped by a backslash
  cases h

/-! ### Quoted texts -/

theorem flatMap_escape_append_inj {cs ds xs ys : List Char}
    (h : cs.flatMap escape ++ '"' :: xs = ds.flatMap escape ++ '"' :: ys) : cs = ds ∧ xs = ys := by
  induction cs generalizing ds with
  | nil =>
    cases ds with
    | nil => exact ⟨rfl, (List.cons.inj h).2⟩
    | cons d ds =>
      rw [List.flatMap_cons, List.append_assoc] at h
      exact absurd h.symm (escape_append_ne d _ _)
  | cons c cs ih =>
    cases ds with
    | nil =>
      rw [List.flatMap_cons, List.append_assoc] at h
      exact absurd h (escape_append_ne c _ _)
    | cons d ds =>
      rw [List.flatMap_cons, List.flatMap_cons, List.append_assoc, List.append_assoc] at h
      obtain ⟨rfl, hrest⟩ := escape_append_inj h
      obtain ⟨rfl, rfl⟩ := ih hrest
      exact ⟨rfl, rfl⟩

theorem toList_quote (s : String) :
    (quote s).toList = '"' :: (s.toList.flatMap escape ++ ['"']) := by
  simp [quote]

/-- **A quoted text** ends at its own quote. -/
theorem quote_append_inj {s t : String} {xs ys : List Char}
    (h : (quote s).toList ++ xs = (quote t).toList ++ ys) : s = t ∧ xs = ys := by
  rw [toList_quote, toList_quote, List.cons_append, List.cons_append, List.append_assoc,
    List.append_assoc] at h
  obtain ⟨hchars, rfl⟩ := flatMap_escape_append_inj (List.cons.inj h).2
  exact ⟨String.toList_inj.mp hchars, rfl⟩

/-! ### Values -/

section Texts

variable (level : Nat)

theorem toList_render_text (s : String) :
    (render level (.text s)).toList = '"' :: (s.toList.flatMap escape ++ ['"']) := by
  rw [render, toList_quote]

theorem toList_render_nil : (render level (.list [])).toList = ['[', ']'] := by
  rw [render]
  rfl

theorem toList_render_cons (item : Json) (items : List Json) :
    (render level (.list (item :: items))).toList =
      '[' :: '\n' :: ((indentation (level + 1)).toList ++ ((render (level + 1) item).toList ++
        ((renderItems (level + 1) items).toList ++
          '\n' :: ((indentation level).toList ++ [']'])))) := by
  rw [render]
  simp

theorem toList_render_object_nil : (render level (.object [])).toList = ['\x7b', '\x7d'] := by
  rw [render]
  rfl

theorem toList_render_object_cons (key : String) (value : Json) (fields : List (String × Json)) :
    (render level (.object ((key, value) :: fields))).toList =
      '\x7b' :: '\n' :: ((indentation (level + 1)).toList ++ ((quote key).toList ++
        (':' :: ' ' :: ((render (level + 1) value).toList ++
          ((renderFields (level + 1) fields).toList ++
            '\n' :: ((indentation level).toList ++ ['\x7d'])))))) := by
  rw [render]
  simp

theorem toList_renderItems_nil : (renderItems level []).toList = [] := by
  rw [renderItems]
  rfl

theorem toList_renderItems_cons (item : Json) (items : List Json) :
    (renderItems level (item :: items)).toList =
      ',' :: '\n' :: ((indentation level).toList ++
        ((render level item).toList ++ (renderItems level items).toList)) := by
  rw [renderItems]
  simp

theorem toList_renderFields_nil : (renderFields level []).toList = [] := by
  rw [renderFields]
  rfl

theorem toList_renderFields_cons (key : String) (value : Json) (fields : List (String × Json)) :
    (renderFields level ((key, value) :: fields)).toList =
      ',' :: '\n' :: ((indentation level).toList ++ ((quote key).toList ++
        (':' :: ' ' :: ((render level value).toList ++ (renderFields level fields).toList)))) := by
  rw [renderFields]
  simp

end Texts

mutual

/-- No text of a value goes on as the text of another value. -/
theorem render_append_inj {level : Nat} {j j' : Json} {xs ys : List Char}
    (h : (render level j).toList ++ xs = (render level j').toList ++ ys) : j = j' ∧ xs = ys := by
  -- values of different shape differ in one of their first two characters
  rcases j with s | ⟨_ | ⟨item, items⟩⟩ | ⟨_ | ⟨⟨key, value⟩, fields⟩⟩ <;>
    rcases j' with t | ⟨_ | ⟨item', items'⟩⟩ | ⟨_ | ⟨⟨key', value'⟩, fields'⟩⟩ <;>
    simp only [toList_render_text, toList_render_nil, toList_render_cons, toList_render_object_nil,
      toList_render_object_cons, List.cons_append, List.append_assoc, List.nil_append,
      List.cons.injEq, Char.reduceEq, false_and, and_false, true_and] at h
  · obtain ⟨hchars, rfl⟩ := flatMap_escape_append_inj h
    exact ⟨congrArg text (String.toList_inj.mp hchars), rfl⟩
  · exact ⟨rfl, h⟩
  · obtain ⟨rfl, hitems⟩ := render_append_inj (List.append_cancel_left h)
    obtain ⟨rfl, hclose⟩ := renderItems_append_inj hitems
    exact ⟨rfl, (List.cons.inj (List.append_cancel_left hclose)).2⟩
  · exact ⟨rfl, h⟩
  · obtain ⟨rfl, hvalue⟩ := quote_append_inj (List.append_cancel_left h)
    obtain ⟨rfl, hfields⟩ := render_append_inj (List.cons.inj (List.cons.inj hvalue).2).2
    obtain ⟨rfl, hclose⟩ := renderFields_append_inj hfields
    exact ⟨rfl, (List.cons.inj (List.append_cancel_left hclose)).2⟩

theorem renderItems_append_inj {level : Nat} {items items' : List Json} {xs ys : List Char}
    (h : (renderItems level items).toList ++ '\n' :: xs =
      (renderItems level items').toList ++ '\n' :: ys) : items = items' ∧ xs = ys := by
  rcases items with _ | ⟨item, items⟩ <;> rcases items' with _ | ⟨item', items'⟩ <;>
    simp only [toList_renderItems_nil, toList_renderItems_cons, List.cons_append,
      List.append_assoc, List.nil_append, List.cons.injEq, Char.reduceEq, false_and,
      true_and] at h
  · exact ⟨rfl, h⟩
  · obtain ⟨rfl, hitems⟩ := render_append_inj (List.append_cancel_left h)
    obtain ⟨rfl, hrest⟩ := renderItems_append_inj hitems
    exact ⟨rfl, hrest⟩

theorem renderFields_append_inj {level : Nat} {fields fields' : List (String × Json)}
    {xs ys : List Char}
    (h : (renderFields level fields).toList ++ '\n' :: xs =
      (renderFields level fields').toList ++ '\n' :: ys) : fields = fields' ∧ xs = ys := by
  rcases fields with _ | ⟨⟨key, value⟩, fields⟩ <;>
    rcases fields' with _ | ⟨⟨key', value'⟩, fields'⟩ <;>
    simp only [toList_renderFields_nil, toList_renderFields_cons, List.cons_append,
      List.append_assoc, List.nil_append, List.cons.injEq, Char.reduceEq, false_and,
      true_and] at h
  · exact ⟨rfl, h⟩
  · obtain ⟨rfl, hvalue⟩ := quote_append_inj (List.append_cancel_left h)
    obtain ⟨rfl, hfields⟩ := render_append_inj (List.cons.inj (List.cons.inj hvalue).2).2
    obtain ⟨rfl, hrest⟩ := renderFields_append_inj hfields
    exact ⟨rfl, hrest⟩

end

/-- **The text of a value** determines it. -/
theorem pretty_injective : Function.Injective pretty := by
  intro j j' h
  have htexts : (render 0 j).toList ++ [] = (render 0 j').toList ++ [] :=
    congrArg (String.toList · ++ []) h
  exact (render_append_inj htexts).1

end ArgumentSchemes.Report.Json
