import DocPages.Proofs.Declaration.Outline

/-!
# Which block documents what

The blocks that document a type and its members are said by position in `typeBlock?` and
`memberBlock?`. This module shows that they never cross: the block of a type documents no member,
the block of a member stands behind the function before it, and a block in front of a free function
that precedes the type reaches none of its members.

Main statement: the documentation of a declaration is exactly the text of these blocks
(`documentation_extract`).
-/

namespace DocPages

namespace Token

variable {ts : List Token} {c e f b : Nat}

theorem memberBlock?_eq_some_iff :
    memberBlock? ts c f = some b ↔
      (b < f ∧ IsBlockFor ts .member b ∧ ∀ j, b < j → j < f → ¬ IsBlockFor ts .member j) ∧
        ∀ g, g < f → b < g → ¬ Resets ts c g := by
  rw [memberBlock?, Option.filter_eq_some_iff, lastBefore?_eq_some_iff, decide_eq_true_eq]

theorem isBlockFor_of_mem_memberBlocks (h : b ∈ memberBlocks ts c e) :
    IsBlockFor ts .member b := by
  obtain ⟨f, -, hb⟩ := List.mem_filterMap.1 h
  exact (memberBlock?_eq_some_iff.1 hb).1.2.1

theorem isBlockFor_of_typeBlock? (h : typeBlock? ts c = some b) : IsBlockFor ts .type b :=
  (lastBefore?_eq_some_iff.1 h).2.1

theorem pairwise_functionsBetween (ts : List Token) (c e : Nat) :
    (functionsBetween ts c e).Pairwise (· < ·) :=
  List.pairwise_lt_range.filter _

/-- A function uses up every block in front of it, so the block of a later one stands behind it. -/
theorem le_of_memberBlock? {g : Nat} (hg : Resets ts c g) (hgf : g < f)
    (h : memberBlock? ts c f = some b) : g ≤ b := by
  by_contra hlt
  exact (memberBlock?_eq_some_iff.1 h).2 g hgf (by omega) hg

theorem pairwise_memberBlocks (ts : List Token) (c e : Nat) :
    (memberBlocks ts c e).Pairwise (· < ·) := by
  rw [memberBlocks, List.pairwise_filterMap]
  refine (pairwise_functionsBetween ts c e).imp_of_mem fun {f f'} hf _ hlt b hb b' hb' => ?_
  have hn := (mem_functionsBetween.1 hf).2.2
  have h₁ : b < f := (memberBlock?_eq_some_iff.1 hb).1.1
  have h₂ : f ≤ b' := le_of_memberBlock? ⟨hn.1, Or.inr hn⟩ hlt hb'
  omega

theorem nodup_typeBlock?_memberBlocks (ts : List Token) (c e : Nat) :
    ((typeBlock? ts c).toList ++ memberBlocks ts c e).Nodup := by
  rw [List.nodup_append]
  refine ⟨by cases typeBlock? ts c <;> simp, ?_, fun a ha b hb => ?_⟩
  · exact (pairwise_memberBlocks ts c e).imp fun h => Nat.ne_of_lt h
  · rintro rfl
    rw [Option.mem_toList] at ha
    have hcross := (isBlockFor_of_typeBlock? ha).target_eq (isBlockFor_of_mem_memberBlocks hb)
    exact absurd hcross (by decide)

theorem not_mem_memberBlocks {g : Nat} (hbg : b < g) (hgc : g < c)
    (hg : kindAt? ts g = some .functionWord) : b ∉ memberBlocks ts c e := by
  intro hmem
  obtain ⟨f, hf, hb⟩ := List.mem_filterMap.1 hmem
  have hcf := (mem_functionsBetween.1 hf).2.1
  have hle := le_of_memberBlock? ⟨hg, Or.inl hgc⟩ (by omega) hb
  omega

end Token

open Token

/-- The documentation of a declaration is the last block for a type in front of it; that of each
member is the last block for members in front of its function, if no function has used it up. No
block documents two things, the blocks of the members stand in their order, and none of them stands
in front of a function that precedes the type. -/
theorem documentation_extract (path : Text) {ts : List Token} {c e : Nat}
    (hs : IsTypeSpan ts c e) :
    ∃ d, (extract path ts).declaration = some d ∧
      d.documentation = (typeBlock? ts c).bind (textAt? ts) ∧
      d.members.map (fun m => (some m.name, m.documentation)) =
        (functionsBetween ts c e).map (fun f =>
          (nameAt? ts f, (memberBlock? ts c f).bind (textAt? ts))) ∧
      ((typeBlock? ts c).toList ++ memberBlocks ts c e).Nodup ∧
      (memberBlocks ts c e).Pairwise (· < ·) ∧
      ∀ b g, b < g → g < c → kindAt? ts g = some .functionWord → b ∉ memberBlocks ts c e := by
  refine ⟨declarationAt ts path c e, declaration_extract_of_isTypeSpan path hs, rfl, ?_,
    nodup_typeBlock?_memberBlocks ts c e, pairwise_memberBlocks ts c e,
    fun b g hbg hgc hg => not_mem_memberBlocks hbg hgc hg⟩
  rw [declarationAt, List.map_map]
  refine List.map_congr_left fun f hf => ?_
  obtain ⟨name, hname⟩ := Option.isSome_iff_exists.1 (mem_functionsBetween.1 hf).2.2.2
  simp only [Function.comp_apply, memberAt, hname, Option.getD_some]

theorem documentation_extract_mixedRow :
    IsTypeSpan mixedRow 11 24 ∧
      ∃ d, (extract [] mixedRow).declaration = some d ∧
        d.documentation = some "/** Tool. */".toList ∧
        d.members.map (fun m => (some m.name, m.documentation)) =
          [(some "run".toList, none), (some "stop".toList, some "/** Stops. */".toList)] ∧
        [9, 17].Nodup ∧
        [17].Pairwise (· < ·) ∧
        ∀ b g, b < g → g < 11 → kindAt? mixedRow g = some .functionWord → b ∉ [17] := by
  have hs : IsTypeSpan mixedRow 11 24 := isTypeSpan_typeEnd (by decide)
  exact ⟨hs, documentation_extract [] hs⟩

end DocPages
