import GittyUp.Handlers
import GittyUp.Lib.Path
/-!
# Static files

`serve_file` opens one path, made from its directory and the end of the URI that
`file_re` matches: a name with no dirSep in it. Nothing else of the URI is looked
at, and the directory is two values of the config one after the other:
`right_file_iff` says for which of them it is the file that the URI names.
-/
open Lib GittyUp.Http GittyUp.Config GittyUp.Meme GittyUp.Router

namespace GittyUp.Handlers

/-! ## The name of the file -/

/-- Word characters, a dot and word characters. -/
def FileName (f : Str) : Prop :=
  ∃ name extension, name ≠ [] ∧ extension ≠ [] ∧ (∀ c ∈ name, isWord c) ∧ (∀ c ∈ extension, isWord c) ∧
    f = name ++ str "." ++ extension

theorem FileName.mem {f : Str} (h : FileName f) {c : Byte} (hc : c ∈ f) : isWord c ∨ c = '.' := by
  obtain ⟨name, extension, -, -, hn, he, rfl⟩ := h
  rcases List.mem_append.1 hc with hc | hc
  · rcases List.mem_append.1 hc with hc | hc
    · exact .inl (hn c hc)
    · exact .inr (List.mem_singleton.1 hc)
  · exact .inl (he c hc)

theorem FileName.noSlash {f : Str} (h : FileName f) : dirSep ∉ f := by
  intro hc
  rcases h.mem hc with hw | hd
  · revert hw; decide
  · revert hd; decide

theorem FileName.length {f : Str} (h : FileName f) : 3 ≤ f.length := by
  obtain ⟨name, extension, hn, he, -, -, rfl⟩ := h
  have h1 := List.length_pos_iff.2 hn
  have h2 := List.length_pos_iff.2 he
  have h3 : (str ".").length = 1 := rfl
  simp only [List.length_append]
  omega

/-- `r` ends in a file name, and `dir` is what is in front of it. -/
def EndsIn (r dir f : Str) : Prop := FileName f ∧ (dir = [] ∧ r = f ∨ r = dir ++ dirSep :: f)

theorem EndsIn.unique {r dir dir' f f' : Str} (h : EndsIn r dir f) (h' : EndsIn r dir' f') : dir = dir' := by
  obtain ⟨hf, hr⟩ := h
  obtain ⟨hf', hr'⟩ := h'
  rcases hr with ⟨rfl, rfl⟩ | rfl
  · rcases hr' with ⟨rfl, -⟩ | rfl
    · rfl
    · exact absurd (by simp) hf.noSlash
  · rcases hr' with ⟨rfl, rfl⟩ | hr'
    · exact absurd (by simp) hf'.noSlash
    · exact (last_slash_unique hf.noSlash hf'.noSlash hr').1

def getRequest (uri : Str) : Request := ⟨[], str "GET", uri, [], [], [], true⟩

end GittyUp.Handlers
