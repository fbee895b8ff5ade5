-- SUMMARY: Search texts are matched literally: what the patterns of filters and of the text search match.
import Ultracore.Query.Compile
import Ultracore.Text.Like

/-!
# Literal search

Search texts and the values of `contains` and `starts_with` filters become patterns of `ILIKE` with
the escape character backslash, file `admin/query/compile.go`. `escapeLike` is three replacements
one after the other; together they escape every sign once.
-/

namespace Ultracore.Query

open Text Text.Like

/-- The signs of a pattern in SQL. -/
def sqlSigns : Signs Char where
  many := '%'
  one := '_'
  escape := '\\'
  many_ne_one := by decide
  many_ne_escape := by decide
  one_ne_escape := by decide

/-- `s ILIKE pattern ESCAPE '\'`, up to a folding of characters. -/
def sqlLike (f : Folding sqlSigns) (pattern s : String) : Option Bool :=
  like f pattern.toList s.toList

/-! ## Escaping -/

/-- Each character is escaped if it is a sign. What a replacement adds is not replaced again: the
    backslashes come first, and no later one looks for a backslash. -/
theorem toList_escapeLike (q : String) : (escapeLike q).toList = sqlSigns.escaped q.toList := by
  have hstrings : "\\".toList = ['\\'] ∧ "%".toList = ['%'] ∧ "_".toList = ['_'] ∧
      "\\\\".toList = ['\\', '\\'] ∧ "\\%".toList = ['\\', '%'] ∧
      "\\_".toList = ['\\', '_'] := by decide
  obtain ⟨hback, hmany, hone, hback', hmany', hone'⟩ := hstrings
  simp only [escapeLike, replaceText, String.toList_ofList, hback, hmany, hone, hback', hmany',
    hone', replaceAll_symbol, List.flatMap_assoc, Signs.escaped]
  refine List.flatMap_congr fun c _ => ?_
  by_cases hc : c = '\\'
  · subst hc
    decide
  by_cases hm : c = '%'
  · subst hm
    decide
  by_cases ho : c = '_'
  · subst ho
    decide
  · simp [Signs.isSign, sqlSigns, hc, hm, ho]

/-- For every folding, the pattern around a search text is well formed and matches the texts that
    contain it, and the pattern behind it those that begin with it. -/
theorem search_text_literal (f : Folding sqlSigns) (q s : String) :
    sqlLike f ("%" ++ escapeLike q ++ "%") s =
      some (decide (f.text q.toList <:+: f.text s.toList)) ∧
    sqlLike f (escapeLike q ++ "%") s = some (decide (f.text q.toList <+: f.text s.toList)) := by
  have hmany : "%".toList = [sqlSigns.many] := rfl
  simp only [sqlLike, String.toList_append, toList_escapeLike, hmany]
  exact ⟨like_contains f q.toList s.toList, like_startsWith f q.toList s.toList⟩

example : sqlLike .exact ("%" ++ escapeLike "5%_" ++ "%") "a 5%_ b" = some true ∧
    sqlLike .exact ("%" ++ escapeLike "5%_" ++ "%") "a 5 x b" = some false := by decide

end Ultracore.Query
