import MacroRelay.Proofs.Token.Words
import MacroRelay.Proofs.Tree.Items

/-!
# Derive lists

The names in a derive list are identifiers joined by `::`. However the list is spaced, and wherever it
has more commas than it needs, they are read as they are written: in order, and each as often.
-/

namespace MacroRelay

namespace Token

variable {t : Token} {ts : List Token} {m : Text}

theorem isPunct_iff : t.isPunct m ↔ t.word = Word.mark m := by
  simp [isPunct, word]

theorem filterMap_trivia (vs : List Trivia) : (vs.map Trivia.lexeme).filterMap Lexeme.word? = [] := by
  rw [List.filterMap_map, List.filterMap_eq_nil_iff]
  exact fun _ _ => rfl

theorem filterMap_lexemes (ts : List Token) : (ts.flatMap lexemes).filterMap Lexeme.word? = ts.map word := by
  induction ts with
  | nil => rfl
  | cons t ts ih =>
    rw [List.flatMap_cons, List.filterMap_append, ih, lexemes, List.filterMap_append, filterMap_trivia]
    rfl

theorem map_word (file : FileId) (base : Offset) (text : Text) :
    (beforeEnd (lex file base text)).map word = text.words := by
  obtain ⟨last, -, -, hscan⟩ := lex_eq_beforeEnd file base text
  rw [Text.words, hscan, List.filterMap_append, filterMap_lexemes, filterMap_trivia, List.append_nil]

theorem StartsAttribute.of_words {ts' : List Token} (hwords : ts.map word = ts'.map word)
    (h : StartsAttribute ts) : StartsAttribute ts' := by
  obtain ⟨hash, bracket, rest, rfl, hhash, hbracket⟩ := h
  obtain ⟨hash', next, rfl, hhash', hnext⟩ := List.map_eq_cons_iff.mp hwords.symm
  obtain ⟨bracket', rest', rfl, hbracket', -⟩ := List.map_eq_cons_iff.mp hnext
  exact ⟨hash', bracket', rest', rfl, isPunct_iff.mpr (hhash'.trans (isPunct_iff.mp hhash)),
    isPunct_iff.mpr (hbracket'.trans (isPunct_iff.mp hbracket))⟩

theorem inside_of_plain {d : Delimiter} (ho : ∀ t ∈ ts, ∀ e : Delimiter, t.isPunct e.opening = false)
    (hc : ∀ t ∈ ts, t.isPunct d.closing = false) : Inside d ts := by
  induction ts with
  | nil => exact .nil
  | cons t ts ih =>
    obtain ⟨ht, ho⟩ := List.forall_mem_cons.mp ho
    obtain ⟨ht', hc⟩ := List.forall_mem_cons.mp hc
    exact .plain ht ht' (ih ho hc)

end Token

open Token Text

-- ---------------------------------------------------------------------------
-- Writing
-- ---------------------------------------------------------------------------

namespace DeriveList

/-- The words of a name: identifiers joined by `::`. -/
inductive IsName : List Text → List Word → Prop
  | last : IsIdent w → IsName [w] [Word.ident w]
  | cons : IsIdent w → IsName name ws → IsName (w :: name) (Word.ident w :: Word.mark "::" :: ws)

/-- The words of a list: names with commas between them, and more commas anywhere but inside a name. -/
inductive IsList : List (List Text) → List Word → Prop
  | nil : IsList [] []
  | comma : IsList names ws → IsList names (Word.mark "," :: ws)
  | last : IsName name ws → IsList [name] ws
  | cons : IsName name ws → IsList names ws' → IsList (name :: names) (ws ++ Word.mark "," :: ws')

def derive (ws : List Word) : List Word :=
  Word.mark "#" :: Word.mark "[" :: Word.ident "derive" :: Word.mark "(" ::
    (ws ++ [Word.mark ")", Word.mark "]"])

variable {name : List Text} {names : List (List Text)} {ws rest : List Word} {ts : List Token} {m : Text}

theorem IsName.parted (h : IsName name ws) (hm : m ∈ marks) (hrest : Parted rest) :
    Parted (ws ++ Word.mark m :: rest) := by
  induction h with
  | last hw => exact .ident hw hm hrest
  | cons hw _ ih => exact .ident hw (by decide) ih

theorem IsList.parted (h : IsList names ws) (hm : m ∈ marks) (hrest : Parted rest) :
    Parted (ws ++ Word.mark m :: rest) := by
  induction h with
  | nil => exact .mark hm hrest
  | comma _ ih => exact .mark (by decide) ih
  | last hname => exact hname.parted hm hrest
  | cons hname _ ih =>
    rw [List.append_assoc]
    exact hname.parted (by decide) ih

theorem parted_derive (h : IsList names ws) : Parted (derive ws) := by
  have hderive : IsIdent "derive" := ⟨⟨0x64, by decide, by decide⟩, by decide +kernel⟩
  refine .mark (by decide) (.mark (by decide) (.ident hderive (by decide) ?_))
  exact h.parted (by decide) (.mark (by decide) .nil)

theorem IsName.mem {w : Word} (h : IsName name ws) (hw : w ∈ ws) : w.1 = .ident ∨ w = Word.mark "::" := by
  induction h with
  | last => exact .inl (List.mem_singleton.mp hw ▸ rfl)
  | cons _ _ ih =>
    rcases List.mem_cons.mp hw with rfl | hw
    · exact .inl rfl
    · rcases List.mem_cons.mp hw with rfl | hw
      · exact .inr rfl
      · exact ih hw

theorem IsList.mem {w : Word} (h : IsList names ws) (hw : w ∈ ws) :
    w.1 = .ident ∨ w = Word.mark "::" ∨ w = Word.mark "," := by
  induction h with
  | nil => cases hw
  | comma _ ih =>
    rcases List.mem_cons.mp hw with rfl | hw
    · exact .inr (.inr rfl)
    · exact ih hw
  | last hname => exact (hname.mem hw).imp_right .inl
  | cons hname _ ih =>
    rcases List.mem_append.mp hw with hw | hw
    · exact (hname.mem hw).imp_right .inl
    · rcases List.mem_cons.mp hw with rfl | hw
      · exact .inr (.inr rfl)
      · exact ih hw

theorem IsName.not_comma (h : IsName name (ts.map word)) : ∀ t ∈ ts, t.isPunct "," = false := by
  intro t ht
  refine Bool.eq_false_iff.mpr fun hp => ?_
  have hmem := h.mem (List.mem_map_of_mem ht)
  rw [isPunct_iff.mp hp] at hmem
  revert hmem
  decide

theorem IsList.not_delimiter (h : IsList names (ts.map word)) {d : Delimiter} :
    ∀ t ∈ ts, t.isPunct d.opening = false ∧ t.isPunct d.closing = false := by
  intro t ht
  have hmem := h.mem (List.mem_map_of_mem ht)
  constructor
  all_goals
    refine Bool.eq_false_iff.mpr fun hp => ?_
    rw [isPunct_iff.mp hp] at hmem
    revert hmem
    cases d <;> decide

theorem IsList.inside (h : IsList names (ts.map word)) : Inside .paren ts :=
  inside_of_plain (fun t ht _ => (h.not_delimiter t ht).1) fun t ht => (h.not_delimiter t ht).2

-- ---------------------------------------------------------------------------
-- Reading
-- ---------------------------------------------------------------------------

theorem entriesOnto_plain (h : ∀ t ∈ ts, t.isPunct "," = false) (done : List Text) (current : Text)
    (rest : List Token) : Attribute.entriesOnto done current (ts ++ rest) =
      Attribute.entriesOnto done (current ++ bareText ts) rest := by
  induction ts generalizing current with
  | nil => simp [bareText]
  | cons t ts ih =>
    obtain ⟨ht, hts⟩ := List.forall_mem_cons.mp h
    rw [List.cons_append, Attribute.entriesOnto, ht, if_neg Bool.false_ne_true, ih hts]
    simp [bareText]

theorem IsName.joined_cons (h : IsName name ws) (w : Text) :
    Text.joined "::" (w :: name) = w ++ "::" ++ Text.joined "::" name := by
  cases h <;> rw [Text.joined, List.intercalate_cons_cons] <;> rfl

theorem IsName.flatMap_text (h : IsName name ws) : ws.flatMap (·.2) = Text.joined "::" name := by
  induction h with
  | last => simp [Text.joined, List.intercalate]
  | cons _ hname ih =>
    rw [List.flatMap_cons, List.flatMap_cons, ih, hname.joined_cons, List.append_assoc]

theorem IsName.joined_ne_nil (h : IsName name ws) : Text.joined "::" name ≠ [] := by
  rw [← h.flatMap_text]
  cases h with
  | last hw => simpa using hw.ne_nil
  | cons hw _ => simp [hw.ne_nil]

theorem IsName.bareText_eq (h : IsName name (ts.map word)) : bareText ts = Text.joined "::" name := by
  rw [← h.flatMap_text, List.flatMap_map]
  rfl

theorem IsList.entriesOnto_eq (h : IsList names (ts.map word)) (done : List Text) :
    Attribute.entriesOnto done [] ts = done.reverse ++ names.map (Text.joined "::") := by
  generalize hws : ts.map word = ws at h
  induction h generalizing ts done with
  | nil =>
    obtain rfl := List.map_eq_nil_iff.mp hws
    simp [Attribute.entriesOnto]
  | comma _ ih =>
    obtain ⟨comma, rest, rfl, hcomma, hrest⟩ := List.map_eq_cons_iff.mp hws
    rw [Attribute.entriesOnto, isPunct_iff.mpr hcomma, if_pos rfl, if_pos rfl, ih done hrest]
  | last hname =>
    subst hws
    have hread := entriesOnto_plain hname.not_comma done [] []
    rw [List.append_nil, List.nil_append, hname.bareText_eq] at hread
    rw [hread, Attribute.entriesOnto, if_neg hname.joined_ne_nil, List.reverse_cons]
    rfl
  | cons hname _ ih =>
    obtain ⟨front, next, rfl, rfl, hnext⟩ := List.map_eq_append_iff.mp hws
    obtain ⟨comma, rest, rfl, hcomma, hrest⟩ := List.map_eq_cons_iff.mp hnext
    rw [entriesOnto_plain hname.not_comma, List.nil_append, hname.bareText_eq, Attribute.entriesOnto,
      isPunct_iff.mpr hcomma, if_pos rfl, if_neg hname.joined_ne_nil, ih _ hrest]
    simp

end DeriveList

namespace Item

open DeriveList

variable {names : List (List Text)} {list : List Word} {row : List (Text × Word)} {body : Text}

theorem exists_derive {ts : List Token} (hlist : IsList names list) (hwords : ts.map word = derive list) :
    ∃ a : AttributeForm, a.tokens = ts ∧
      ∀ attr, a.ReadAs attr → attr.deriveNames = names.map (Text.joined "::") := by
  obtain ⟨hash, _, rfl, hhash, hwords⟩ := List.map_eq_cons_iff.mp hwords
  obtain ⟨bracket, _, rfl, hbracket, hwords⟩ := List.map_eq_cons_iff.mp hwords
  obtain ⟨name, _, rfl, hname, hwords⟩ := List.map_eq_cons_iff.mp hwords
  obtain ⟨opening, _, rfl, hopening, hwords⟩ := List.map_eq_cons_iff.mp hwords
  obtain ⟨inner, _, rfl, rfl, hback⟩ := List.map_eq_append_iff.mp hwords
  obtain ⟨closing, _, rfl, hclosing, hback⟩ := List.map_eq_cons_iff.mp hback
  obtain ⟨close, _, rfl, hclose, hback⟩ := List.map_eq_cons_iff.mp hback
  obtain rfl := List.map_eq_nil_iff.mp hback
  obtain ⟨hkind, htext⟩ := Prod.mk.inj hname
  have hgroup : IsGroup .paren (opening :: (inner ++ [closing])) :=
    .mk (isPunct_iff.mpr hopening) hlist.inside (isPunct_iff.mpr hclosing)
  refine ⟨⟨hash, bracket, [name], some (opening :: (inner ++ [closing])), close, isPunct_iff.mpr hhash,
    isPunct_iff.mpr hbracket, .last (beq_iff_eq.mpr hkind), ?_, isPunct_iff.mpr hclose⟩, ?_, ?_⟩
  · rintro _ ⟨⟩
    exact hgroup
  · simp [AttributeForm.tokens, AttributeForm.inner]
  · intro attr hread
    obtain ⟨args, hargs, htokens⟩ := Option.map_eq_some_iff.mp hread.args
    have hderive : attr.name = Text.ofString "derive" := by
      rw [hread.name, AttributeForm.name, bareText, List.flatMap_singleton, htext]
    have hlength : 2 ≤ args.tokens.length := by
      rw [htokens]
      simp
    have hinner : (args.tokens.drop 1).dropLast = inner := by
      rw [htokens]
      simp
    rw [Attribute.deriveNames, hargs]
    simp only [hderive, hlength, and_self, if_true, hinner]
    exact hlist.entriesOnto_eq []

/-- The names of a list are read as they were written, however it is spaced. -/
theorem parse_derive_list (file : FileId) (base : Offset) (hlist : IsList names list)
    (hwords : row.map (·.2) = derive list) (hgaps : ∀ gap ∈ row.map (·.1), Gap gap)
    (hbody : beforeEnd (lex file base body) ≠ [])
    (hplain : ¬ StartsAttribute (beforeEnd (lex file base body))) :
    ∃ item a, parse file base (spaced row ++ body) = .ok item ∧ item.attributes = [a] ∧
      a.deriveNames = names.map (Text.joined "::") := by
  have htokens := map_word file base (spaced row ++ body)
  -- the words of the body are those that it has alone, and so are its first two tokens
  rw [words_spaced hgaps (hwords ▸ parted_derive hlist), hwords, ← map_word file base body] at htokens
  obtain ⟨-, -, hspelled, -⟩ := lex_eq_beforeEnd file base (spaced row ++ body)
  obtain ⟨front, rest, hsplit, hfront, hrest⟩ := List.map_eq_append_iff.mp htokens
  obtain ⟨a, ha, hnames⟩ := exists_derive hlist hfront
  have hne : rest ≠ [] := by
    rintro rfl
    exact hbody (List.map_eq_nil_iff.mp hrest.symm)
  let form : ItemForm (beforeEnd (lex file base (spaced row ++ body))) :=
    { attributes := [a]
      body := rest
      tokens_eq := by rw [hsplit, List.flatMap_singleton, ha]
      body_ne_nil := hne
      body_plain := fun h => hplain (h.of_words hrest) }
  obtain ⟨item, hitem, hread⟩ := form.parse hspelled
  obtain ⟨attr, attributes, hattr, hnil, hattributes⟩ := List.forall₂_cons_left_iff.mp hread.attributes
  obtain rfl := List.forall₂_nil_left_iff.mp hnil
  exact ⟨item, attr, hitem, hattributes, hnames attr hattr⟩

/-- Commas in front, at the end and twice, one of them in a comment, and a name that comes twice. -/
def crowded : List (Text × Word) :=
  [("\n", .mark "#"), ("", .mark "["), (" ", .ident "derive"), ("// all\n", .mark "("), ("", .mark ","),
    ("", .ident "Drop"), ("", .mark ","), ("//,B\n\t", .mark ","), ("", .ident "starknet"), ("", .mark "::"),
    (" ", .ident "Store"), ("", .mark ","), ("", .ident "Drop"), ("", .mark ","), ("\n", .mark ")"),
    ("", .mark "]")]

theorem parse_derive_list_crowded :
    spaced crowded = "\n#[ derive// all\n(,Drop,//,B\n\t,starknet:: Store,Drop,\n)]" ∧
      ∃ item a, parse 1 7 (spaced crowded ++ "struct A;") = .ok item ∧ item.attributes = [a] ∧
        a.deriveNames = ["Drop", "starknet::Store", "Drop"] := by
  have hdrop : IsName ["Drop"] [.ident "Drop"] := .last ⟨⟨0x44, by decide, by decide⟩, by decide +kernel⟩
  have hstore : IsName ["starknet", "Store"] [.ident "starknet", .mark "::", .ident "Store"] :=
    .cons ⟨⟨0x73, by decide, by decide⟩, by decide +kernel⟩
      (.last ⟨⟨0x53, by decide, by decide⟩, by decide +kernel⟩)
  have hlist : IsList [["Drop"], ["starknet", "Store"], ["Drop"]] (((crowded.drop 4).take 10).map (·.2)) :=
    .comma (.cons hdrop (.comma (.cons hstore (.cons hdrop .nil))))
  have hgaps : ∀ gap ∈ crowded.map (·.1), Gap gap := by
    have hnone : Gap "" := .nil
    have hline : Gap "\n" := .newline .nil
    have hblank : Gap " " := .blank rfl .nil
    have hall : Gap "// all\n" := .comment (by decide : newline ∉ Text.ofString " all") .nil
    have hcomma : Gap "//,B\n\t" := .comment (by decide : newline ∉ Text.ofString ",B") (.blank rfl .nil)
    simp [crowded, hnone, hline, hblank, hall, hcomma]
  have hhead : (beforeEnd (lex 1 7 "struct A;")).head?.map word = some (.ident "struct") := by decide +kernel
  refine ⟨by decide, parse_derive_list 1 7 hlist rfl hgaps ?_ ?_⟩
  · intro hnil
    rw [hnil] at hhead
    cases hhead
  · rintro ⟨hash, bracket, rest, hsplit, hhash, -⟩
    rw [hsplit, List.head?_cons, Option.map_some, isPunct_iff.mp hhash] at hhead
    cases hhead

end Item

end MacroRelay
