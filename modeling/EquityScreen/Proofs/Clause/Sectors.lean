/-
Sectors in a row of tokens.

The name of a sector is read as that sector whatever clause ends behind it (`Ends.sectorAt?`). The one word
that could go on with it is the conjunction, and no spelling of a sector begins with a name and "and"
(`isUnlisted`).
-/
import EquityScreen.Proofs.Clause.Writing
import EquityScreen.Proofs.Text.Words
import EquityScreen.Proofs.Token.Spelling

namespace EquityScreen
namespace Sector

/-- The form of a term begins like that of the words that it begins with. -/
theorem prefix_normalForm {w : String} (hw : '\u03a3' ∉ w.toList) (rest : String) :
    (normalForm w).toList <+: (normalForm (w ++ " " ++ rest)).toList := by
  have hspace : ∀ before cs, Text.lowerFrom before (' ' :: cs) = ' ' :: Text.lowerFrom (' ' :: before) cs := fun _ _ => rfl
  have hprefix : ∀ vs ws : List (List Char), [' '].intercalate vs <+: [' '].intercalate (vs ++ ws) := by
    intro vs ws
    induction vs with
    | nil => exact List.nil_prefix
    | cons v vs ih =>
      cases vs with
      | nil => cases ws <;> simp
      | cons v' vs => simpa using ih
  simp only [normalForm, Text.respace, Text.lower, String.toList_ofList, String.toList_append]
  rw [List.append_assoc, Text.lowerFrom_append_of_not_mem hw, Text.lowerFrom_eq_flatMap hw]
  show _ <+: [' '].intercalate (Text.splitWords (_ ++ Text.lowerFrom _ (' ' :: rest.toList)))
  rw [hspace, Text.splitWords_blank (by decide)]
  exact hprefix _ _

/-- No spelling of a sector begins with the words. -/
def isUnlisted (w : String) : Bool :=
  !w.toList.contains '\u03a3' && spellings.all fun e => e.2.all fun s => !(normalForm w).toList.isPrefixOf s.toList

/-- Words that no spelling begins with name no sector, alone or with more behind them. -/
theorem resolve?_of_isUnlisted {w term : String} (hw : isUnlisted w = true) (hterm : term = w ∨ ∃ rest, term = w ++ " " ++ rest)
    (anchored : Bool) : resolve? term anchored = none := by
  simp only [isUnlisted, Bool.and_eq_true, Bool.not_eq_true', List.contains_eq_mem, decide_eq_false_iff_not] at hw
  have hprefix : (normalForm w).toList <+: (normalForm term).toList := by
    rcases hterm with rfl | ⟨rest, rfl⟩
    · exact List.prefix_refl _
    · exact prefix_normalForm hw.1 rest
  unfold resolve?
  dsimp only
  split
  · rfl
  · rw [named?, Option.map_eq_none_iff]
    refine List.find?_eq_none.2 fun e he hcontains => ?_
    have hno := List.all_eq_true.1 (List.all_eq_true.1 hw.2 e he) _ (List.contains_iff_mem.1 hcontains)
    rw [List.isPrefixOf_iff_prefix.2 hprefix] at hno
    exact absurd hno (by decide)

/-! ## Names of sectors -/

/-- The name of a sector is made of words that are cut off as they stand, and no spelling begins with the
name and the conjunction. -/
theorem spelled_of_listed {name : String} (h : name ∈ listed) :
    Text.joined " " (Text.words name) = name ∧ Text.words name ≠ [] ∧ (∀ w ∈ Text.words name, Scan.isSpelled w.toList = true) ∧
      isUnlisted (name ++ " and") = true := by
  have hall : listed.all (fun name => Text.joined " " (Text.words name) == name && !(Text.words name).isEmpty &&
      (Text.words name).all (fun w => Scan.isSpelled w.toList) && isUnlisted (name ++ " and")) = true := by decide +kernel
  simpa [and_assoc] using List.all_eq_true.1 hall name h

end Sector

namespace Clause

variable {ts us vs rest : List Token} {name : String}

/-! ## Sectors of listed names -/

/-- A token as it counts for reading. -/
def unplaced (x : Content × String) : Token := ⟨x.1, x.2, 0⟩

/-- Where the tokens stand does not count for the term that they are. -/
theorem sectorTerm?_said (h : us.map Token.said = vs.map Token.said) (n : Nat) : sectorTerm? us n = sectorTerm? vs n := by
  have hunplaced : ∀ ts : List Token, sectorTerm? ts n = sectorTerm? ((ts.map Token.said).map unplaced) n := by
    intro ts
    unfold sectorTerm?
    rw [← List.map_take, ← List.map_take]
    cases ts.take n with
    | nil => rfl
    | cons t more =>
      have hall : ((more.map Token.said).map unplaced).all (fun u => u.isName || u.isKeyword .and) =
          more.all (fun u => u.isName || u.isKeyword .and) := by
        simp [Token.said, unplaced, Token.isName, Token.isKeyword, Function.comp_def]
      have htext : Token.joinedText (((t :: more).map Token.said).map unplaced) = Token.joinedText (t :: more) := by
        simp [Token.joinedText, Token.said, unplaced, Function.comp_def]
      rw [List.map_cons, List.map_cons] at htext ⊢
      dsimp only
      rw [hall, htext, List.length_map, List.length_map]
      rfl
  rw [hunplaced us, hunplaced vs, h]

theorem sectorAt?_said (h : us.map Token.said = vs.map Token.said) : sectorAt? us true = sectorAt? vs true := by
  unfold sectorAt?
  simp only [sectorTerm?_said h, Bool.true_or]

/-- The words of the name of a sector name it. -/
theorem namesSector_of_listed (h : name ∈ Sector.listed) (hts : ts.map Token.said = (Text.words name).map Scan.wordSaid) :
    NamesSector ts name := by
  have hall : Sector.listed.all (fun name => !articleNext (((Text.words name).map Scan.wordSaid).map unplaced) &&
      sectorAt? (((Text.words name).map Scan.wordSaid).map unplaced) true ==
        some (name, (((Text.words name).map Scan.wordSaid).map unplaced).length)) = true := by decide +kernel
  have hname := List.all_eq_true.1 hall name h
  simp only [Bool.and_eq_true, Bool.not_eq_true', beq_iff_eq] at hname
  rw [← hts] at hname
  have hsaid : ((ts.map Token.said).map unplaced).map Token.said = ts.map Token.said := by
    simp [Token.said, unplaced, Function.comp_def]
  refine ⟨?_, ?_⟩
  · cases ts with
    | nil => rfl
    | cons t ts => exact hname.1
  · rw [← sectorAt?_said hsaid, hname.2, List.length_map, List.length_map]

theorem joinedText_of_listed (h : name ∈ Sector.listed) (hts : ts.map Token.said = (Text.words name).map Scan.wordSaid) :
    Token.joinedText ts = name := by
  have htexts : ts.map (·.text) = Text.words name := by
    have h := congrArg (List.map Prod.snd) hts
    simpa [Function.comp_def, Token.said, Scan.wordSaid] using h
  rw [Token.joinedText, htexts]
  exact (Sector.spelled_of_listed h).1

/-- Only what a clause ends with comes next, and the conjunction goes by its own word. -/
def EndsPlainly (rest : List Token) : Prop := Ends rest ∧ ∀ t ∈ rest.head?, Scan.Plainly t.said

/-- A term that goes on with the conjunction behind the name of a sector. -/
theorem joinedText_conjunction {t : Token} {k : Nat} {term : String} (h : name ∈ Sector.listed)
    (hts : ts.map Token.said = (Text.words name).map Scan.wordSaid) (ht : t.text = "and")
    (hterm : sectorTerm? (ts ++ t :: rest) (ts.length + k + 1) = some term) :
    term = name ++ " and" ∨ ∃ more, term = name ++ " and" ++ " " ++ more := by
  have hne : ts ≠ [] := by
    rintro rfl
    exact (Sector.spelled_of_listed h).2.1 (List.map_eq_nil_iff.1 hts.symm)
  obtain ⟨u, more, htake, -, hcases⟩ := sectorTerm?_some hterm
  rw [Nat.add_assoc, List.take_length_add_append, List.take_succ_cons] at htake
  have hjoined : term = Token.joinedText (ts ++ t :: rest.take k) := by
    rcases hcases with ⟨hone, -⟩ | ⟨-, -, hjoined⟩
    · have := List.length_pos_iff.2 hne
      omega
    · rw [hjoined, htake]
  have hfirst : (Token.joinedText (ts ++ [t])).toList = (name ++ " and").toList := by
    have hname := joinedText_of_listed h hts
    rw [Token.joinedText, List.map_append, Text.joined_append " " (by simpa using hne), ← Token.joinedText, hname]
    simp [ht]
  have hfirst := String.toList_inj.1 hfirst
  cases hmore : rest.take k with
  | nil =>
    rw [hjoined, hmore, hfirst]
    exact .inl rfl
  | cons v vs =>
    refine .inr ⟨Token.joinedText (v :: vs), String.toList_inj.1 ?_⟩
    rw [hjoined, hmore, List.append_cons, Token.joinedText, List.map_append, Text.joined_append " " (by simp),
      ← Token.joinedText, hfirst, ← Token.joinedText]
    simp

/-- **The name of a sector goes no further** than its words. -/
theorem EndsPlainly.sectorAt? (hrest : EndsPlainly rest) (h : name ∈ Sector.listed)
    (hts : ts.map Token.said = (Text.words name).map Scan.wordSaid) :
    Clause.sectorAt? (ts ++ rest) true = some (name, ts.length) := by
  have hnames := (namesSector_of_listed h hts).2
  cases rest with
  | nil => rw [List.append_nil, hnames]
  | cons t rest =>
    by_cases hand : t.content = .keyword .and
    · have htext : t.text = "and" := (hrest.2 t rfl).conjunction hand
      rw [← hnames]
      unfold Clause.sectorAt?
      congr 1
      funext n
      rcases Nat.lt_or_ge ts.length n with hn | hn
      · obtain ⟨k, rfl⟩ := Nat.exists_eq_add_of_lt hn
        have hshort : sectorTerm? ts (ts.length + k + 1) = none := by
          cases hterm : sectorTerm? ts (ts.length + k + 1) with
          | none => rfl
          | some term =>
            obtain ⟨u, more, htake, hlength, -⟩ := sectorTerm?_some hterm
            have := congrArg List.length htake
            simp only [List.length_take, List.length_cons] at this
            omega
        have hlong : ∀ term, sectorTerm? (ts ++ t :: rest) (ts.length + k + 1) = some term →
            Sector.resolve? term true = none := by
          intro term hterm
          exact Sector.resolve?_of_isUnlisted (Sector.spelled_of_listed h).2.2.2
            (joinedText_conjunction h hts htext hterm) true
        simp only [hshort, Bool.true_or, Option.bind_eq_bind, Option.bind_none, Option.bind_eq_none_iff]
        intro term hterm sector hsector
        rw [hlong term hterm] at hsector
        exact absurd hsector nofun
      · simp only [Bool.true_or, sectorTerm?_append_of_le hn]
    · refine (sectorAt?_append ?_ ?_ ?_).trans hnames
      all_goals rcases hrest.1 with ht | ht | ht | ht <;> simp_all [Token.isName, Token.isKeyword]

end Clause
end EquityScreen
