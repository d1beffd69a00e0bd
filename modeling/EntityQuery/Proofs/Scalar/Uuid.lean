import EntityQuery.Uuid

/-!
# The text of an identifier reads back

The written form is the hyphenated one, which is none of the others: it is longer than the plain
form, has a hyphen where the scheme has a colon, and starts with a digit.
-/

namespace EntityQuery

namespace Uuid

theorem mapM_digit?_map_digitChar (digits : List (Fin 16)) :
    (digits.map Hex.digitChar).mapM Hex.digit? = some digits := by
  induction digits with
  | nil => rfl
  | cons d digits ih => simp [Hex.digit?_digitChar, ih]

theorem readSimple?_map_digitChar (id : Uuid) :
    readSimple? (id.digits.map Hex.digitChar) = some id := by
  rw [readSimple?, mapM_digit?_map_digitChar]
  exact dif_pos id.length_eq

/-- Five groups of characters between hyphens are put together again. -/
theorem readHyphenated?_groups {a b c d : List Char} (ha : a.length = 8) (hb : b.length = 4)
    (hc : c.length = 4) (hd : d.length = 4) (e : List Char) :
    readHyphenated? (a ++ '-' :: (b ++ '-' :: (c ++ '-' :: (d ++ '-' :: e)))) =
      readSimple? (a ++ b ++ c ++ d ++ e) := by
  unfold readHyphenated?
  simp only [List.take_left' ha, List.drop_left' ha, List.take_left' hb, List.drop_left' hb,
    List.take_left' hc, List.drop_left' hc, List.take_left' hd, List.drop_left' hd]

theorem take_nine_ne_urnScheme {a : List Char} (ha : a.length = 8) (rest : List Char) :
    ((a ++ '-' :: rest).take 9).map Char.toLower ≠ urnScheme := by
  intro h
  have htake : (a ++ '-' :: rest).take 9 = a ++ ['-'] := by
    rw [List.take_append, ha, List.take_of_length_le (by omega)]
    rfl
  rw [htake, List.map_append] at h
  have hlast := congrArg List.getLast? h
  rw [List.map_singleton, List.getLast?_concat] at hlast
  exact absurd hlast (by decide)

theorem digitChar_ne_brace : ∀ d : Fin 16, Hex.digitChar d ≠ '\x7b' := by decide

theorem read?_text (id : Uuid) : read? id.text = some id := by
  obtain ⟨digits, hdigits⟩ : ∃ digits, digits = id.digits.map Hex.digitChar := ⟨_, rfl⟩
  have hlength : digits.length = 32 := by rw [hdigits, List.length_map, id.length_eq]
  have htext : id.text = digits.take 8 ++ '-' :: ((digits.drop 8).take 4 ++ '-' ::
      ((digits.drop 12).take 4 ++ '-' :: ((digits.drop 16).take 4 ++ '-' :: digits.drop 20))) := by
    simp [text, hdigits]
  have htotal : id.text.length = 36 := by
    simp [htext, hlength]
  have hhead : id.text.head? ≠ some '\x7b' := by
    intro h
    have hne : digits ≠ [] := List.ne_nil_of_length_eq_add_one hlength
    rw [htext, List.head?_append, Option.or_of_isSome (by simp [hne])] at h
    have hmem : '\x7b' ∈ digits := List.mem_of_mem_take (List.mem_of_head? h)
    rw [hdigits] at hmem
    obtain ⟨d, -, hd⟩ := List.mem_map.1 hmem
    exact digitChar_ne_brace d hd
  have hgroups : digits.take 8 ++ (digits.drop 8).take 4 ++ (digits.drop 12).take 4 ++
      (digits.drop 16).take 4 ++ digits.drop 20 = digits := by
    have hdrop : ∀ n, digits.drop (n + 4) = (digits.drop n).drop 4 :=
      fun n => List.drop_drop.symm
    rw [List.append_assoc, List.append_assoc, List.append_assoc, hdrop 16, List.take_append_drop,
      hdrop 12, List.take_append_drop, hdrop 8, List.take_append_drop, List.take_append_drop]
  rw [read?, if_neg (by omega), if_neg, if_neg fun h => hhead h.1, htext,
    readHyphenated?_groups, hgroups, hdigits, readSimple?_map_digitChar]
  · simp [hlength]
  · simp [hlength]
  · simp [hlength]
  · simp [hlength]
  · rw [htext]
    exact take_nine_ne_urnScheme (by simp [hlength]) _

end Uuid

end EntityQuery
