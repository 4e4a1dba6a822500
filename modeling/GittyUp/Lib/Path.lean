import GittyUp.Lib.Bytes
/-!
# File paths

A path names the same file whatever slashes and single dots are between its
steps. Links and `..` are left to the file system: they are steps like others.
-/

namespace Lib

def dirSep : Byte := '/'

/-- What a path is resolved by: where it starts, its directories, and the name at its end. -/
structure Path where
  absolute : Bool
  dirs : List Str
  name : Str
  deriving DecidableEq

def resolve (s : Str) : Path :=
  ⟨s.head? = some dirSep, (s.splitOn dirSep).dropLast.filter fun d => d ≠ [] ∧ d ≠ str ".", (s.splitOn dirSep).getLastD []⟩

/-- The last dirSep is where it is. -/
theorem last_slash_unique {a b s t : Str} (hs : dirSep ∉ s) (ht : dirSep ∉ t) (h : a ++ dirSep :: s = b ++ dirSep :: t) :
    a = b ∧ s = t := by
  have hsplit : a.splitOn dirSep ++ [s] = b.splitOn dirSep ++ [t] := by
    rw [← List.splitOn_eq_singleton hs, ← List.splitOn_eq_singleton ht, ← List.splitOn_append_cons_self,
      ← List.splitOn_append_cons_self, h]
  have hst : s = t := by simpa using (List.append_inj' hsplit rfl).2
  subst hst
  exact ⟨List.append_cancel_right h, rfl⟩

end Lib
