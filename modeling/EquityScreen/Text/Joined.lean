/-
Texts in a row with a separator between them.
-/
namespace EquityScreen.Text

/-- The texts one after the other, the separator between each two of them. -/
def joined (separator : String) : List String → String
  | [] => ""
  | [s] => s
  | s :: rest => s ++ separator ++ joined separator rest

@[simp] theorem joined_nil (separator : String) : joined separator [] = "" := rfl

@[simp] theorem joined_singleton (separator s : String) : joined separator [s] = s := rfl

theorem joined_cons_cons (separator s t : String) (rest : List String) :
    joined separator (s :: t :: rest) = s ++ separator ++ joined separator (t :: rest) := rfl

/-- The characters of the joined texts are the characters of each, those of the separator between. -/
theorem toList_joined (separator : String) (texts : List String) :
    (joined separator texts).toList = separator.toList.intercalate (texts.map String.toList) := by
  induction texts with
  | nil => simp
  | cons s rest ih =>
    cases rest with
    | nil => simp
    | cons t rest => simp_all [joined_cons_cons]

end EquityScreen.Text
