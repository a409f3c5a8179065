import GoldenCircuit.Catalog
import GoldenCircuit.Proofs.Circuit
import GoldenCircuit.Proofs.Text.Numeral
import GoldenCircuit.Proofs.Text.Trim

/-! Argument strings of trees. A grammar says which strings ask for which dimensions; exactly these
are read, and of the dimensions asked for exactly those within bounds are built. -/
namespace GoldenCircuit.AndTree

open Text

/-- The argument string asks for these dimensions: the numeral of the width, a hyphen and the numeral
of the depth, with white space or nothing around them. -/
def Asks (args : String) (width depth : Nat) : Prop :=
  ∃ before left right after, args.toList = before ++ (left ++ '-' :: right) ++ after ∧
    (∀ char ∈ before, isBlank char = true) ∧ (∀ char ∈ after, isBlank char = true) ∧
    Denotes left width ∧ Denotes right depth

/-- Why there is no tree of these dimensions: the first bound that they violate. -/
inductive Violates (width depth : Nat) : BadParameter → Prop
  | noWidth (zero : width = 0) : Violates width depth (.notPositive "width")
  | tooWide (large : 65536 < width) : Violates width depth (.exceeds "width" width 65536)
  | tooDeep (pos : 1 ≤ width) (fits : width ≤ 65536) (large : 1048576 < depth) :
      Violates width depth (.exceeds "depth" depth 1048576)

/-! ### Reading -/

theorem not_mem_of_denotes {numeral : List Char} {number : Nat} (denotes : Denotes numeral number) :
    '-' ∉ numeral := by
  intro member
  have digit := denotes.digits '-' member
  contradiction

/-- Where the trimmed text is split at its first hyphen, both parts have to be numerals. -/
theorem readArgs_of_split {args : String} {left right : List Char} {width depth : Nat}
    (split : trim args.toList = left ++ '-' :: right) (first : '-' ∉ left) :
    readArgs args = .ok (width, depth) ↔ Denotes left width ∧ Denotes right depth := by
  have other : ∀ char ∈ left, (char != '-') = true := fun char member =>
    bne_iff_ne.mpr fun same => first (same ▸ member)
  have front : (left ++ '-' :: right).takeWhile (· != '-') = left := by
    rw [List.takeWhile_append_of_pos other, List.takeWhile_cons_of_neg (by decide), List.append_nil]
  have back : ((left ++ '-' :: right).dropWhile (· != '-')).drop 1 = right := by
    rw [List.dropWhile_append_of_pos other, List.dropWhile_cons_of_neg (by decide), List.drop_one,
      List.tail_cons]
  rw [readArgs, split, ← word?_eq_some_iff, ← word?_eq_some_iff]
  simp only [front, back]
  cases word? left <;> cases word? right <;> simp

theorem readArgs_of_whole {args : String} (whole : '-' ∉ trim args.toList) :
    readArgs args = .error (.unreadableArgs familyName args argsShape) := by
  have nothing : (trim args.toList).dropWhile (· != '-') = [] := by
    rw [List.dropWhile_eq_nil_iff]
    exact fun char member => bne_iff_ne.mpr fun same => whole (same ▸ member)
  have unread : word? [] = none := rfl
  rw [readArgs, nothing]
  simp only [List.drop_nil, unread]
  cases word? ((trim args.toList).takeWhile (· != '-')) <;> rfl

theorem readArgs_eq_ok_iff {args : String} {width depth : Nat} :
    readArgs args = .ok (width, depth) ↔ Asks args width depth := by
  constructor
  · intro read
    by_cases hyphen : '-' ∈ trim args.toList
    · obtain ⟨left, right, split, first⟩ := List.eq_append_cons_of_mem hyphen
      obtain ⟨before, after, text, blank_before, blank_after⟩ := exists_trim args.toList
      rw [split] at text
      obtain ⟨wide, deep⟩ := (readArgs_of_split split first).mp read
      exact ⟨before, left, right, after, text, blank_before, blank_after, wide, deep⟩
    · rw [readArgs_of_whole hyphen] at read
      contradiction
  · rintro ⟨before, left, right, after, text, blank_before, blank_after, wide, deep⟩
    -- Trimming stops at the numerals, since neither they nor the hyphen are white space.
    have visible : ∀ char ∈ left ++ '-' :: right, isBlank char = false := by
      intro char member
      rcases List.mem_append.mp member with digit | rest
      · exact isBlank_of_isDigit (wide.digits char digit)
      · rcases List.mem_cons.mp rest with rfl | digit
        · decide
        · exact isBlank_of_isDigit (deep.digits char digit)
    have split : trim args.toList = left ++ '-' :: right := by
      rw [text, trim_append (by simp) blank_before visible blank_after]
    exact (readArgs_of_split split (not_mem_of_denotes wide)).mpr ⟨wide, deep⟩

theorem readArgs_cases (args : String) : (∃ width depth, readArgs args = .ok (width, depth)) ∨
    readArgs args = .error (.unreadableArgs familyName args argsShape) := by
  unfold readArgs
  dsimp only
  split
  · exact .inl ⟨_, _, rfl⟩
  · exact .inr rfl

theorem readArgs_eq_error_iff {args : String} {fault : Fault} :
    readArgs args = .error fault ↔ (∀ width depth, ¬ Asks args width depth) ∧
      fault = .unreadableArgs familyName args argsShape := by
  simp only [← readArgs_eq_ok_iff]
  rcases readArgs_cases args with ⟨width, depth, read⟩ | unread
  · constructor
    · intro failed
      rw [read] at failed
      contradiction
    · rintro ⟨nothing, -⟩
      exact absurd read (nothing width depth)
  · constructor
    · intro failed
      rw [unread] at failed
      exact ⟨fun width depth read => by rw [unread] at read; contradiction,
        (Except.error.inj failed).symm⟩
    · rintro ⟨-, rfl⟩
      exact unread

/-! ### Building -/

theorem ofDimensions_of_bounds {width depth : Nat} (pos : 1 ≤ width) (wide : width ≤ 65536)
    (deep : depth ≤ 1048576) :
    ofDimensions width depth = .ok ⟨⟨width, pos⟩, depth, wide, deep⟩ := by
  rw [ofDimensions, dif_pos (show 0 < width from pos), dif_pos (show width ≤ maxWidth from wide),
    dif_pos (show depth ≤ maxDepth from deep)]

theorem ofDimensions_of_violates {width depth : Nat} {reason : BadParameter}
    (violates : Violates width depth reason) :
    ofDimensions width depth = .error (.badParameter familyName reason) := by
  cases violates with
  | noWidth zero => rw [ofDimensions, dif_neg (by omega)]
  | tooWide large =>
    have wide : ¬ width ≤ maxWidth := Nat.not_le.mpr large
    rw [ofDimensions, dif_pos (by omega), dif_neg wide]
    rfl
  | tooDeep pos fits large =>
    have deep : ¬ depth ≤ maxDepth := Nat.not_le.mpr large
    rw [ofDimensions, dif_pos (show 0 < width from pos), dif_pos (show width ≤ maxWidth from fits),
      dif_neg deep]
    rfl

theorem bounds_or_violates (width depth : Nat) :
    (1 ≤ width ∧ width ≤ 65536 ∧ depth ≤ 1048576) ∨ ∃ reason, Violates width depth reason := by
  rcases Nat.eq_zero_or_pos width with zero | pos
  · exact .inr ⟨_, .noWidth zero⟩
  rcases Nat.lt_or_ge 65536 width with large | fits
  · exact .inr ⟨_, .tooWide large⟩
  rcases Nat.lt_or_ge 1048576 depth with large | deep
  · exact .inr ⟨_, .tooDeep pos fits large⟩
  · exact .inl ⟨pos, fits, deep⟩

theorem family_ofArgs_of_asks {args : String} {width depth : Nat}
    (asks : Asks args width depth) :
    family.ofArgs args = (ofDimensions width depth).map AndTree.specimen := by
  show (ofArgs args).map AndTree.specimen = _
  rw [ofArgs, readArgs_eq_ok_iff.mpr asks]
  rfl

theorem family_ofArgs_of_unread {args : String} {fault : Fault}
    (unread : readArgs args = .error fault) : family.ofArgs args = .error fault := by
  show (ofArgs args).map AndTree.specimen = _
  rw [ofArgs, unread]
  rfl

theorem family_ofArgs_of_violates {args : String} {width depth : Nat} {reason : BadParameter}
    (asks : Asks args width depth) (violates : Violates width depth reason) :
    family.ofArgs args = .error (.badParameter familyName reason) := by
  rw [family_ofArgs_of_asks asks, ofDimensions_of_violates violates]
  rfl

/-- What can become of an argument string: it is not read, it violates a bound, or its tree is
built. -/
theorem family_ofArgs_cases (args : String) :
    (∃ fault, readArgs args = .error fault) ∨
      ∃ width depth, Asks args width depth ∧ ((∃ reason, Violates width depth reason) ∨
        ∃ tree : AndTree, tree.width.bits = width ∧ tree.depth = depth ∧
          family.ofArgs args = .ok tree.specimen) := by
  rcases readArgs_cases args with ⟨width, depth, read⟩ | unread
  · have asks := readArgs_eq_ok_iff.mp read
    refine .inr ⟨width, depth, asks, ?_⟩
    rcases bounds_or_violates width depth with ⟨pos, wide, deep⟩ | violates
    · refine .inr ⟨⟨⟨width, pos⟩, depth, wide, deep⟩, rfl, rfl, ?_⟩
      rw [family_ofArgs_of_asks asks, ofDimensions_of_bounds pos wide deep]
      rfl
    · exact .inl violates
  · exact .inl ⟨_, unread⟩

theorem exists_family_ofArgs_iff {args : String} :
    (∃ specimen, family.ofArgs args = .ok specimen) ↔ ∃ width depth, Asks args width depth ∧
      1 ≤ width ∧ width ≤ 65536 ∧ depth ≤ 1048576 := by
  constructor
  · rintro ⟨specimen, built⟩
    rcases family_ofArgs_cases args with
      ⟨fault, unread⟩ | ⟨width, depth, asks, ⟨reason, violates⟩ | ⟨tree, rfl, rfl, -⟩⟩
    · rw [family_ofArgs_of_unread unread] at built
      contradiction
    · rw [family_ofArgs_of_violates asks violates] at built
      contradiction
    · exact ⟨_, _, asks, tree.width.pos, tree.width_le, tree.depth_le⟩
  · rintro ⟨width, depth, asks, pos, wide, deep⟩
    rw [family_ofArgs_of_asks asks, ofDimensions_of_bounds pos wide deep]
    exact ⟨_, rfl⟩

theorem family_ofArgs_eq_error_iff {args : String} {fault : Fault} :
    family.ofArgs args = .error fault ↔ readArgs args = .error fault ∨
      ∃ width depth reason, Asks args width depth ∧ Violates width depth reason ∧
        fault = .badParameter familyName reason := by
  constructor
  · intro failed
    rcases family_ofArgs_cases args with
      ⟨other, unread⟩ | ⟨width, depth, asks, ⟨reason, violates⟩ | ⟨tree, -, -, built⟩⟩
    · rw [family_ofArgs_of_unread unread] at failed
      exact .inl (Except.error.inj failed ▸ unread)
    · rw [family_ofArgs_of_violates asks violates] at failed
      exact .inr ⟨width, depth, reason, asks, violates, (Except.error.inj failed).symm⟩
    · rw [built] at failed
      contradiction
  · rintro (unread | ⟨width, depth, reason, asks, violates, rfl⟩)
    · exact family_ofArgs_of_unread unread
    · exact family_ofArgs_of_violates asks violates

/-! ### Writing -/

theorem asks_of_text {tree : AndTree} {args : String} {before after : List Char}
    (blank_before : ∀ char ∈ before, isBlank char = true)
    (blank_after : ∀ char ∈ after, isBlank char = true)
    (text : args.toList =
      before ++ (toString tree.width.bits ++ "-" ++ toString tree.depth).toList ++ after) :
    Asks args tree.width.bits tree.depth := by
  have wide : tree.width.bits < 2 ^ 64 := Nat.lt_of_le_of_lt tree.width_le (by decide)
  have deep : tree.depth < 2 ^ 64 := Nat.lt_of_le_of_lt tree.depth_le (by decide)
  have middle : (toString tree.width.bits ++ "-" ++ toString tree.depth).toList =
      (toString tree.width.bits).toList ++ '-' :: (toString tree.depth).toList := by
    simp
  rw [middle] at text
  exact ⟨before, _, _, after, text, blank_before, blank_after, denotes_toString wide,
    denotes_toString deep⟩

theorem ofArgs_of_asks {tree : AndTree} {args : String}
    (asks : Asks args tree.width.bits tree.depth) : ofArgs args = .ok tree := by
  rw [ofArgs, readArgs_eq_ok_iff.mpr asks]
  exact ofDimensions_of_bounds tree.width.pos tree.width_le tree.depth_le

/-- An argument string is read exactly if the grammar says that it asks for some dimensions, and then
as these; otherwise the report quotes it as it was given. Of what is read, exactly the dimensions
within bounds are built, and the first bound that others violate is reported. So the dimensions of a
tree, written in decimal, give the tree again. -/
theorem ofArgs_outcome (args : String) :
    (∀ width depth, readArgs args = .ok (width, depth) ↔ Asks args width depth) ∧
    (∀ fault, readArgs args = .error fault ↔ (∀ width depth, ¬ Asks args width depth) ∧
      fault = .unreadableArgs familyName args argsShape) ∧
    ((∃ specimen, family.ofArgs args = .ok specimen) ↔ ∃ width depth, Asks args width depth ∧
      1 ≤ width ∧ width ≤ 65536 ∧ depth ≤ 1048576) ∧
    (∀ width depth, Asks args width depth →
      family.ofArgs args = (ofDimensions width depth).map AndTree.specimen) ∧
    (∀ fault, family.ofArgs args = .error fault ↔ readArgs args = .error fault ∨
      ∃ width depth reason, Asks args width depth ∧ Violates width depth reason ∧
        fault = .badParameter familyName reason) ∧
    ∀ (tree : AndTree) (before after : List Char), (∀ char ∈ before, isBlank char = true) →
      (∀ char ∈ after, isBlank char = true) →
      args.toList =
        before ++ (toString tree.width.bits ++ "-" ++ toString tree.depth).toList ++ after →
      ofArgs args = .ok tree ∧ family.ofArgs args = .ok tree.specimen := by
  refine ⟨fun width depth => readArgs_eq_ok_iff, fun fault => readArgs_eq_error_iff,
    exists_family_ofArgs_iff, fun width depth => family_ofArgs_of_asks,
    fun fault => family_ofArgs_eq_error_iff, ?_⟩
  intro tree before after blank_before blank_after text
  have built := ofArgs_of_asks (asks_of_text blank_before blank_after text)
  exact ⟨built, congrArg (Except.map AndTree.specimen) built⟩

/-- An em space in front and a line break at the end are no part of the dimensions. -/
theorem ofArgs_outcome_of_spaced :
    (∀ char ∈ ['\u2003', ' '], isBlank char = true) ∧ (∀ char ∈ ['\n'], isBlank char = true) ∧
      ofArgs "\u2003 32-128\n" = .ok standard ∧
      family.ofArgs "\u2003 32-128\n" = .ok standard.specimen ∧
      family.ofArgs "\u2003 32-128\n" = (ofDimensions 32 128).map AndTree.specimen := by
  have front : ∀ char ∈ ['\u2003', ' '], isBlank char = true := List.all_eq_true.mp rfl
  have back : ∀ char ∈ ['\n'], isBlank char = true := List.all_eq_true.mp rfl
  have text : "\u2003 32-128\n".toList = ['\u2003', ' '] ++
      (toString standard.width.bits ++ "-" ++ toString standard.depth).toList ++ ['\n'] :=
    rfl
  obtain ⟨-, -, -, builds, -, rebuilds⟩ := ofArgs_outcome "\u2003 32-128\n"
  obtain ⟨tree, specimen⟩ := rebuilds standard _ _ front back text
  exact ⟨front, back, tree, specimen, builds 32 128 (asks_of_text front back text)⟩

end GoldenCircuit.AndTree
