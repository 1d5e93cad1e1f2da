import MacroRelay.Token.Lexer
import Mathlib.Algebra.Group.Nat.Defs
import Mathlib.Data.List.Chain

/-!
# Tokens cover their text

Cutting a text loses nothing: every byte is in exactly one lexeme, and no lexeme is empty. The
tokens put the lexemes back in a row, so their pieces tile the text from its first offset to its
last. The end token is the only one without text.
-/

namespace MacroRelay

-- ---------------------------------------------------------------------------
-- The front of a text
-- ---------------------------------------------------------------------------

namespace Lexer

theorem trivia?_eq_none (h : trivia? b rest = none) :
    isBlank b = false ∧ b ≠ Text.newline ∧ ¬ (b = 0x2F ∧ rest.head? = some 0x2F) := by
  unfold trivia? at h
  split at h
  · cases h
  · rename_i hblank
    split at h
    · cases h
    · rename_i hline
      split at h
      · cases h
      · rename_i hcomment
        exact ⟨Bool.eq_false_iff.mpr hblank, hline, hcomment⟩

theorem literal_kind (quote : UInt8) (taken : Nat) (t : Text) :
    (literal quote taken t).1 = .string ∨ (literal quote taken t).1 = .invalid := by
  fun_induction literal quote taken t with
  | case1 | case2 | case5 => exact .inr rfl
  | case4 => exact .inl rfl
  | case3 _ _ _ ih | case6 _ _ _ _ _ _ ih => exact ih

theorem token_kind_ne_eof (b : UInt8) (rest : Text) : (token b rest).1 ≠ .eof := by
  unfold token
  split
  · nofun
  · split
    · nofun
    · split
      · rcases literal_kind b 0 rest with h | h <;> rw [h] <;> nofun
      · split
        · nofun
        · split <;> nofun

end Lexer

namespace Lexeme

@[simp] theorem front_text (b : UInt8) (rest : Text) :
    (front b rest).1.text = b :: rest.take (front b rest).2 := by
  unfold front
  split <;> rfl

theorem front_token {kind : TokenKind} {t : Text} (h : (front b rest).1 = .token kind t) :
    Lexer.trivia? b rest = none ∧ kind = (Lexer.token b rest).1 ∧
      t = b :: rest.take (Lexer.token b rest).2 := by
  unfold front at h
  split at h
  · cases h
  · rename_i hnone
    cases h
    exact ⟨hnone, rfl, rfl⟩

-- ---------------------------------------------------------------------------
-- All lexemes of a text
-- ---------------------------------------------------------------------------

theorem scanOnto_cons (done : List Lexeme) (b : UInt8) (rest : Text) :
    scanOnto done (b :: rest) =
      scanOnto ((front b rest).1 :: done) (rest.drop (front b rest).2) := by
  rw [scanOnto]

theorem scanOnto_eq (done : List Lexeme) (t : Text) : scanOnto done t = done.reverse ++ scan t := by
  match t with
  | [] => simp [scan, scanOnto]
  | b :: rest =>
    have ih done := scanOnto_eq done (rest.drop (front b rest).2)
    rw [scan, scanOnto_cons, scanOnto_cons, ih, ih]
    simp
termination_by t.length
decreasing_by simp only [List.length_drop, List.length_cons]; omega

@[simp] theorem scan_nil : scan [] = [] := by
  simp [scan, scanOnto]

@[simp] theorem scan_cons (b : UInt8) (rest : Text) :
    scan (b :: rest) = (front b rest).1 :: scan (rest.drop (front b rest).2) := by
  rw [scan, scanOnto_cons, scanOnto_eq]
  rfl

/-- A text is empty, or it goes on behind its first lexeme. -/
@[elab_as_elim] theorem scan_induction {motive : Text → Prop} (nil : motive [])
    (cons : ∀ b rest, motive (rest.drop (front b rest).2) → motive (b :: rest)) (t : Text) :
    motive t := by
  match t with
  | [] => exact nil
  | b :: rest => exact cons b rest (scan_induction nil cons (rest.drop (front b rest).2))
termination_by t.length
decreasing_by simp only [List.length_drop, List.length_cons]; omega

@[simp] theorem scan_flatMap_text (t : Text) : (scan t).flatMap text = t := by
  induction t using scan_induction with
  | nil => simp
  | cons b rest ih => simp [ih]

theorem mem_scan {l : Lexeme} (h : l ∈ scan t) : ∃ b rest, b :: rest <:+ t ∧ l = (front b rest).1 := by
  induction t using scan_induction with
  | nil => simp at h
  | cons b rest ih =>
    rw [scan_cons, List.mem_cons] at h
    rcases h with rfl | h
    · exact ⟨b, rest, List.suffix_refl _, rfl⟩
    · obtain ⟨b', rest', hsuffix, rfl⟩ := ih h
      refine ⟨b', rest', hsuffix.trans ?_, rfl⟩
      exact (List.drop_suffix _ rest).trans (List.suffix_cons b rest)

theorem text_ne_nil_of_mem_scan {l : Lexeme} (h : l ∈ scan t) : l.text ≠ [] := by
  obtain ⟨b, rest, -, rfl⟩ := mem_scan h
  simp

end Lexeme

-- ---------------------------------------------------------------------------
-- Lexemes in their places
-- ---------------------------------------------------------------------------

theorem Offset.advance_append (o : Offset) (t t' : Text) :
    (o.advance (Width.of t)).advance (Width.of t') = o.advance (Width.of (t ++ t')) := by
  simp only [Offset.advance, Width.of, List.length_append, Nat.toUInt32, UInt32.ofNat_add,
    UInt32.add_assoc]

theorem Span.stop_of (o : Offset) (t : Text) : (Span.of o t).stop = o.advance (Width.of t) := rfl

theorem Offset.toNat_advance {o : Offset} {t : Text} (h : o.toNat + t.length < 2 ^ 32) :
    (o.advance (Width.of t)).toNat = o.toNat + t.length := by
  have ht : t.length < 2 ^ 32 := by omega
  rw [Offset.advance, Width.of, UInt32.toNat_add, Nat.toUInt32, UInt32.toNat_ofNat_of_lt' ht,
    Nat.mod_eq_of_lt h]

/-- A stretch of source, as a token or a bit of trivia stands for it. -/
structure Piece where
  span : FileSpan
  text : Text
deriving DecidableEq

namespace Piece

def start (p : Piece) : Offset := p.span.span.start

def stop (p : Piece) : Offset := p.span.span.stop

/-- The lexemes one behind the other from `start`, and an empty piece after the last. -/
def row (file : FileId) (start : Offset) : List Lexeme → List Piece
  | [] => [⟨⟨file, start, start⟩, []⟩]
  | l :: ls => ⟨⟨file, Span.of start l.text⟩, l.text⟩ :: row file (Span.of start l.text).stop ls

@[simp] theorem row_cons (file : FileId) (at_ : Offset) (l : Lexeme) (ls : List Lexeme) :
    row file at_ (l :: ls) =
      ⟨⟨file, Span.of at_ l.text⟩, l.text⟩ :: row file (Span.of at_ l.text).stop ls := rfl

theorem row_head? (file : FileId) (at_ : Offset) (ls : List Lexeme) :
    (row file at_ ls).head?.map start = some at_ := by
  cases ls <;> rfl

theorem row_getLast? (file : FileId) (at_ : Offset) (ls : List Lexeme) :
    (row file at_ ls).getLast?.map stop =
      some (at_.advance (Width.of (ls.flatMap Lexeme.text))) := by
  induction ls generalizing at_ with
  | nil => simp [row, stop, Offset.advance, Width.of]
  | cons l ls ih =>
    have hhead := row_head? file (Span.of at_ l.text).stop ls
    rw [List.flatMap_cons, ← Offset.advance_append, ← Span.stop_of at_ l.text, ← ih, row_cons]
    generalize row file (Span.of at_ l.text).stop ls = ps at hhead ⊢
    cases ps with
    | nil => cases hhead
    | cons p ps => rfl

theorem row_isChain (file : FileId) (at_ : Offset) (ls : List Lexeme) :
    (row file at_ ls).IsChain fun p q => p.stop = q.start := by
  induction ls generalizing at_ with
  | nil => exact .singleton _
  | cons l ls ih =>
    have hhead := row_head? file (Span.of at_ l.text).stop ls
    have hchain := ih (Span.of at_ l.text).stop
    rw [row_cons]
    generalize row file (Span.of at_ l.text).stop ls = ps at hhead hchain ⊢
    cases ps with
    | nil => cases hhead
    | cons p ps => exact .cons_cons (Option.some.inj hhead).symm hchain

theorem row_text (file : FileId) (at_ : Offset) (ls : List Lexeme) :
    (row file at_ ls).flatMap text = ls.flatMap Lexeme.text := by
  induction ls generalizing at_ with
  | nil => rfl
  | cons l ls ih => rw [row_cons, List.flatMap_cons, List.flatMap_cons, ih]

theorem span_of_row {ps qs : List Piece} {p : Piece} (h : row file at_ ls = ps ++ p :: qs) :
    p.span = ⟨file, Span.of (at_.advance (Width.of (ps.flatMap text))) p.text⟩ := by
  induction ps generalizing at_ ls with
  | nil =>
    cases ls with
    | nil =>
      obtain ⟨rfl, -⟩ := List.cons.inj h
      simp [Span.of, Offset.advance, Width.of]
    | cons l ls =>
      obtain ⟨rfl, -⟩ := List.cons.inj h
      simp [Offset.advance, Width.of]
  | cons q ps ih =>
    cases ls with
    | nil => simp [row] at h
    | cons l ls =>
      rw [row_cons, List.cons_append, List.cons.injEq] at h
      obtain ⟨rfl, hrest⟩ := h
      rw [ih hrest, Span.stop_of, Offset.advance_append, List.flatMap_cons]

theorem mem_row {p : Piece} (h : p ∈ row file at_ ls) : ∃ before after,
    ls.flatMap Lexeme.text = before ++ p.text ++ after ∧
      p.span = ⟨file, Span.of (at_.advance (Width.of before)) p.text⟩ := by
  obtain ⟨ps, qs, hrow⟩ := List.append_of_mem h
  refine ⟨ps.flatMap text, qs.flatMap text, ?_, span_of_row hrow⟩
  rw [← row_text file at_ ls, hrow, List.flatMap_append, List.flatMap_cons, List.append_assoc]

/-- The piece is what its span cuts out of a text that starts at `base`. -/
structure CutFrom (file : FileId) (base : Offset) (text : Text) (p : Piece) : Prop where
  file : p.span.file = file
  base_le : base ≤ p.start
  start_le : p.start ≤ p.stop
  text_eq : p.text = text.extract (p.start.toNat - base.toNat) (p.stop.toNat - base.toNat)

theorem cutFrom_of_mem_row {p : Piece} (hp : p ∈ row file base ls)
    (h : base.toNat + (ls.flatMap Lexeme.text).length < 2 ^ 32) :
    p.CutFrom file base (ls.flatMap Lexeme.text) := by
  obtain ⟨before, after, htext, hspan⟩ := mem_row hp
  rw [htext] at h ⊢
  simp only [List.length_append] at h
  have hstart : p.start.toNat = base.toNat + before.length := by
    rw [start, hspan, Span.of, Offset.toNat_advance (by omega)]
  have hstop : p.stop.toNat = base.toNat + before.length + p.text.length := by
    rw [stop, hspan, Span.of, Offset.toNat_advance (by rw [Offset.toNat_advance] <;> omega),
      Offset.toNat_advance (by omega)]
  refine ⟨by rw [hspan], ?_, ?_, ?_⟩
  · rw [UInt32.le_iff_toNat_le]
    omega
  · rw [UInt32.le_iff_toNat_le]
    omega
  · have hfrom : p.start.toNat - base.toNat = before.length := by omega
    have hto : p.stop.toNat - base.toNat = before.length + p.text.length := by omega
    simp [hfrom, hto]

end Piece

-- ---------------------------------------------------------------------------
-- Tokens
-- ---------------------------------------------------------------------------

def Trivia.piece (v : Trivia) : Piece := ⟨v.span, v.text⟩

def Trivia.lexeme (v : Trivia) : Lexeme := .trivia v.kind v.text

namespace Token

def pieces (t : Token) : List Piece :=
  t.leading.map Trivia.piece ++ [⟨t.span, t.text⟩]

def lexemes (t : Token) : List Lexeme :=
  t.leading.map Trivia.lexeme ++ [.token t.kind t.text]

theorem fullText_eq (t : Token) : t.fullText = t.lexemes.flatMap Lexeme.text := by
  simp [fullText, leadingText, lexemes, List.flatMap_map, Trivia.lexeme, Lexeme.text]

theorem render_eq (ts : List Token) : render ts = (ts.flatMap lexemes).flatMap Lexeme.text := by
  induction ts with
  | nil => rfl
  | cons t ts ih => rw [render, List.flatMap_cons, ← render, ih, fullText_eq]; simp

theorem placeOnto_pieces (done : List Token) (file : FileId) (at_ : Offset) (held : List Trivia)
    (ls : List Lexeme) : (placeOnto done file at_ held ls).flatMap pieces =
      done.reverse.flatMap pieces ++ held.reverse.map Trivia.piece ++ Piece.row file at_ ls := by
  induction ls generalizing done at_ held with
  | nil => simp [placeOnto, pieces, Piece.row]
  | cons l ls ih =>
    cases l with
    | «trivia» kind text => simp [placeOnto, ih, Piece.row, Trivia.piece, Lexeme.text]
    | token kind text => simp [placeOnto, ih, Piece.row, pieces, Lexeme.text]

theorem placeOnto_lexemes (done : List Token) (file : FileId) (at_ : Offset) (held : List Trivia)
    (ls : List Lexeme) : (placeOnto done file at_ held ls).flatMap lexemes =
      done.reverse.flatMap lexemes ++ held.reverse.map Trivia.lexeme ++ ls ++ [.token .eof []] := by
  induction ls generalizing done at_ held with
  | nil => simp [placeOnto, lexemes]
  | cons l ls ih =>
    cases l with
    | «trivia» kind text => simp [placeOnto, ih, Trivia.lexeme]
    | token kind text => simp [placeOnto, ih, lexemes]

theorem placeOnto_concat (done : List Token) (file : FileId) (at_ : Offset) (held : List Trivia)
    (ls : List Lexeme) : ∃ front stop leading,
      placeOnto done file at_ held ls =
        done.reverse ++ front ++ [⟨.eof, ⟨file, stop, stop⟩, [], leading⟩] ∧
      ∀ t ∈ front, .token t.kind t.text ∈ ls := by
  induction ls generalizing done at_ held with
  | nil => exact ⟨[], at_, held.reverse, by simp [placeOnto], nofun⟩
  | cons l ls ih =>
    cases l with
    | «trivia» kind text =>
      obtain ⟨front, stop, leading, heq, hfront⟩ := ih done (Span.of at_ text).stop _
      exact ⟨front, stop, leading, heq, fun t ht => List.mem_cons_of_mem _ (hfront t ht)⟩
    | token kind text =>
      obtain ⟨front, stop, leading, heq, hfront⟩ := ih _ (Span.of at_ text).stop []
      refine ⟨⟨kind, ⟨file, Span.of at_ text⟩, text, held.reverse⟩ :: front, stop, leading, ?_, ?_⟩
      · rw [placeOnto, heq]
        simp
      · rintro t (_ | ⟨_, ht⟩)
        · exact List.mem_cons_self
        · exact List.mem_cons_of_mem _ (hfront t ht)

variable {file : FileId} {base : Offset} {text : Text} {t : Token}

theorem lex_pieces (file : FileId) (base : Offset) (text : Text) :
    (lex file base text).flatMap pieces = Piece.row file base (Lexeme.scan text) := by
  simp [lex, placeOnto_pieces]

theorem lex_lexemes (file : FileId) (base : Offset) (text : Text) :
    (lex file base text).flatMap lexemes = Lexeme.scan text ++ [.token .eof []] := by
  simp [lex, placeOnto_lexemes]

theorem pieces_text (ts : List Token) : (ts.flatMap pieces).flatMap Piece.text = render ts := by
  have htoken (t : Token) : t.pieces.flatMap Piece.text = t.fullText := by
    simp [pieces, fullText, leadingText, List.flatMap_map, Trivia.piece]
  rw [List.flatMap_assoc, render]
  simp only [htoken]

theorem span_of_lex {front behind : List Token} (h : lex file base text = front ++ t :: behind) :
    t.span =
      ⟨file, Span.of (base.advance (Width.of (render front ++ t.leadingText))) t.text⟩ := by
  have hpieces := lex_pieces file base text
  rw [h, List.flatMap_append, List.flatMap_cons, pieces, List.append_assoc, ← List.append_assoc]
    at hpieces
  have hspan := Piece.span_of_row hpieces.symm
  rw [List.flatMap_append, pieces_text, List.flatMap_map] at hspan
  exact hspan

@[simp] theorem render_lex (file : FileId) (base : Offset) (text : Text) :
    render (lex file base text) = text := by
  rw [render_eq, lex_lexemes]
  simp [Lexeme.text]

theorem kind_ne_eof_of_mem_scan {kind : TokenKind} {s : Text}
    (h : .token kind s ∈ Lexeme.scan text) : kind ≠ .eof := by
  obtain ⟨b, rest, -, hfront⟩ := Lexeme.mem_scan h
  obtain ⟨-, rfl, -⟩ := Lexeme.front_token hfront.symm
  exact Lexer.token_kind_ne_eof b rest

theorem lex_eq_concat (file : FileId) (base : Offset) (text : Text) : ∃ front last,
    lex file base text = front ++ [last] ∧ last.kind = .eof ∧ last.text = [] ∧
      ∀ t ∈ front, t.kind ≠ .eof ∧ .token t.kind t.text ∈ Lexeme.scan text := by
  obtain ⟨front, stop, leading, heq, hfront⟩ :=
    placeOnto_concat [] file base [] (Lexeme.scan text)
  exact ⟨front, _, heq, rfl, rfl, fun t ht =>
    ⟨kind_ne_eof_of_mem_scan (hfront t ht), hfront t ht⟩⟩

theorem eof_or_mem_scan (h : t ∈ lex file base text) :
    t.text = [] ∧ t.kind = .eof ∨ .token t.kind t.text ∈ Lexeme.scan text := by
  obtain ⟨front, last, heq, hkind, htext, hfront⟩ := lex_eq_concat file base text
  rw [heq, List.mem_append, List.mem_singleton] at h
  rcases h with h | rfl
  · exact .inr (hfront t h).2
  · exact .inl ⟨htext, hkind⟩

theorem trivia_mem_scan (h : t ∈ lex file base text) {v : Trivia} (hv : v ∈ t.leading) :
    v.lexeme ∈ Lexeme.scan text := by
  have hmem : v.lexeme ∈ (lex file base text).flatMap lexemes :=
    List.mem_flatMap.mpr ⟨t, h, List.mem_append_left _ (List.mem_map_of_mem hv)⟩
  rw [lex_lexemes, List.mem_append, List.mem_singleton] at hmem
  rcases hmem with hmem | hmem
  · exact hmem
  · cases hmem

theorem text_ne_nil_of_mem_lex (h : t ∈ lex file base text) (hkind : t.kind ≠ .eof) :
    t.text ≠ [] := by
  rcases eof_or_mem_scan h with ⟨-, heof⟩ | hscan
  · exact absurd heof hkind
  · exact Lexeme.text_ne_nil_of_mem_scan hscan

def blanks : List Text := [" ", "\t", "\r", "\n", "//"]

theorem blanks_eq : blanks = [[0x20], [0x09], [0x0D], [0x0A], [0x2F, 0x2F]] := by decide

theorem not_blank_prefix_of_mem_scan {kind : TokenKind} {s blank : Text}
    (h : .token kind s ∈ Lexeme.scan text) (hblank : blank ∈ blanks) : ¬ blank <+: s := by
  obtain ⟨b, rest, -, hfront⟩ := Lexeme.mem_scan h
  obtain ⟨htrivia, -, rfl⟩ := Lexeme.front_token hfront.symm
  obtain ⟨hplain, hline, hcomment⟩ := Lexer.trivia?_eq_none htrivia
  simp only [Lexer.isBlank, Bool.or_eq_false_iff, beq_eq_false_iff_ne] at hplain
  obtain ⟨⟨hspace, htab⟩, hreturn⟩ := hplain
  simp only [blanks_eq, List.mem_cons, List.not_mem_nil, or_false] at hblank
  rcases hblank with rfl | rfl | rfl | rfl | rfl
  · simpa using hspace.symm
  · simpa using htab.symm
  · simpa using hreturn.symm
  · simpa [Text.newline] using hline.symm
  · rw [List.cons_prefix_cons]
    rintro ⟨rfl, hslash⟩
    refine hcomment ⟨rfl, ?_⟩
    obtain ⟨tail, htail⟩ := hslash.trans (List.take_prefix _ rest)
    rw [← htail]
    rfl

/-- Tokens whose pieces cover a text from `base` on, each byte once. -/
structure Tiling (file : FileId) (base : Offset) (text : Text) (ts : List Token) : Prop where
  start : (ts.flatMap pieces).head?.map Piece.start = some base
  contiguous : (ts.flatMap pieces).IsChain fun p q => p.stop = q.start
  stop : (ts.flatMap pieces).getLast?.map (·.stop.toNat) = some (base.toNat + text.length)
  cut : ∀ p ∈ ts.flatMap pieces, p.CutFrom file base text
  ends : ∃ front last, ts = front ++ [last] ∧ last.kind = .eof ∧ last.text = [] ∧
    ∀ t ∈ front, t.kind ≠ .eof
  filled : ∀ t ∈ ts, (t.kind ≠ .eof → t.text ≠ []) ∧ ∀ v ∈ t.leading, v.text ≠ []
  bare : ∀ t ∈ ts, ∀ blank ∈ blanks, ¬ blank <+: t.text

theorem lex_tiles (file : FileId) (base : Offset) (text : Text) :
    render (lex file base text) = text ∧
      (base.toNat + text.length < 2 ^ 32 → Tiling file base text (lex file base text)) := by
  refine ⟨render_lex file base text,
    fun h => ⟨?_, ?_, ?_, fun p hp => ?_, ?_, fun t ht => ⟨?_, ?_⟩, ?_⟩⟩
  · rw [lex_pieces, Piece.row_head?]
  · rw [lex_pieces]
    exact Piece.row_isChain file base _
  · have hlast := Piece.row_getLast? file base (Lexeme.scan text)
    rw [Lexeme.scan_flatMap_text] at hlast
    have := congrArg (Option.map UInt32.toNat) hlast
    rw [lex_pieces]
    simpa [Offset.toNat_advance h] using this
  · rw [lex_pieces] at hp
    have hcut := Piece.cutFrom_of_mem_row hp (by rwa [Lexeme.scan_flatMap_text])
    rwa [Lexeme.scan_flatMap_text] at hcut
  · obtain ⟨front, last, heq, hkind, htext, hfront⟩ := lex_eq_concat file base text
    exact ⟨front, last, heq, hkind, htext, fun t ht => (hfront t ht).1⟩
  · exact text_ne_nil_of_mem_lex ht
  · exact fun v hv => Lexeme.text_ne_nil_of_mem_scan (trivia_mem_scan ht hv)
  · intro t ht blank hblank
    rcases eof_or_mem_scan ht with ⟨htext, -⟩ | hscan
    · rw [htext, List.prefix_nil]
      exact (by decide : ∀ blank ∈ blanks, blank ≠ []) blank hblank
    · exact not_blank_prefix_of_mem_scan hscan hblank

/-- A comment, a byte that begins no character, and a literal that ends in a backslash. -/
def ragged : Text := Text.ofString "x//\n" ++ [0xFF] ++ Text.ofString " 'a\\"

theorem lex_tiles_ragged : render (lex 3 7 ragged) = ragged ∧ Tiling 3 7 ragged (lex 3 7 ragged) ∧
    ((lex 3 7 ragged).flatMap pieces).map (fun p => (p.start, p.text)) =
      [(7, Text.ofString "x"), (8, "//"), (10, "\n"), (11, [0xFF]), (12, " "), (13, "'a\\"),
        (16, [])] :=
  ⟨(lex_tiles 3 7 ragged).1, (lex_tiles 3 7 ragged).2 (by decide), by decide +kernel⟩

end Token

end MacroRelay
