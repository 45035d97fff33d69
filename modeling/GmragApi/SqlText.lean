import GmragApi.Text

/-! What PostgreSQL makes of a text: whether a column takes it, and whether a pattern matches it. -/

namespace GmragApi.Sql

/-- A text column; the limit is that of a `VARCHAR`, in characters. -/
structure Column where
  limit : Option Nat
  notNull : Bool

def nul : Char := Char.ofNat 0

def clean (text : List Char) : Bool := text.all fun c => c != nul

/-- No text has a NUL in it, and of one over the limit only blanks are cut off. -/
def Column.accepts (c : Column) : Option (List Char) → Bool
  | none => !c.notNull
  | some text => clean text && c.limit.all fun limit => (text.drop limit).all fun c => c == ' '

def Column.varchar (limit : Nat) : Column := ⟨some limit, false⟩
def Column.text : Column := ⟨none, false⟩
def Column.required (c : Column) : Column := { c with notNull := true }

/-- `text LIKE pattern`. -/
def like : List Char → List Char → Bool
  | [], text => text.isEmpty
  | '%' :: pattern, text => text.tails.any (like pattern)
  | '_' :: pattern, text =>
    match text with
    | [] => false
    | _ :: text => like pattern text
  | '\\' :: c :: pattern, text =>
    match text with
    | [] => false
    | d :: text => d == c && like pattern text
  | c :: pattern, text =>
    match text with
    | [] => false
    | d :: text => d == c && like pattern text

section Columns

/-- No more than the limit, so that nothing is cut. -/
def fitsIn (limit : Nat) (text : List Char) : Bool := clean text && decide (text.length ≤ limit)

/-- A text that ends in no blank loses more than blanks when it is cut. -/
theorem drop_blank_iff {text : List Char} (h : trim text = text) (limit : Nat) :
    (text.drop limit).all (fun c => c == ' ') = true ↔ text.length ≤ limit := by
  constructor
  · intro hblank
    by_contra hlong
    have hpos : 0 < text.length := by omega
    have hlast : text[text.length - 1] ∈ text.drop limit := by
      refine List.mem_iff_getElem.mpr ⟨text.length - 1 - limit, ?_, ?_⟩
      · rw [List.length_drop]
        omega
      · rw [List.getElem_drop]
        congr 1
        omega
    have hback := trim_back text
    rw [h] at hback
    have hfirst := List.dropWhile_eq_self_iff.mp hback (by rw [List.length_reverse]; exact hpos)
    refine hfirst ?_
    have heq := beq_iff_eq.mp (List.all_eq_true.mp hblank _ hlast)
    simp only [List.getElem_reverse, Nat.sub_zero]
    rw [heq]
    decide
  · intro hshort
    rw [List.drop_eq_nil_of_le hshort]
    rfl

theorem accepts_varchar {text : List Char} (h : trim text = text) (limit : Nat) (notNull : Bool) :
    Column.accepts ⟨some limit, notNull⟩ (some text) = fitsIn limit text := by
  rw [Bool.eq_iff_iff]
  simp only [Column.accepts, fitsIn, Option.all_some, Bool.and_eq_true, drop_blank_iff h,
    decide_eq_true_iff]

theorem accepts_text (text : List Char) (notNull : Bool) :
    Column.accepts ⟨none, notNull⟩ (some text) = clean text := by
  simp [Column.accepts]

/-- An optional text goes into a column that takes NULL as its value does. -/
theorem accepts_optional {c : Column} {value : Option (List Char)} {fits : List Char → Bool}
    (hnull : c.notNull = false)
    (hfits : ∀ text, value = some text → c.accepts (some text) = fits text) :
    c.accepts value = value.all fits := by
  cases value with
  | none => simp [Column.accepts, hnull]
  | some text => rw [hfits text rfl, Option.all_some]

end Columns

end GmragApi.Sql
