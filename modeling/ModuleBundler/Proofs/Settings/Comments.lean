import ModuleBundler.Proofs.Text.Utf8
import ModuleBundler.Settings.Comments

/-!
# What is left without comments

What code is, is said without a reader: it is a row of characters and strings (`Comments.Token`),
and a string holds a quote only behind a backslash (`Comments.Inside`). No two slashes stand next to
each other outside of the strings, and none stands at the end, where it would meet the slashes of a
comment (`Comments.IsCode`).

A reader that goes through such a row is outside of a string and behind no slash in the end
(`Comments.exists_passes_tokens`). So the first comment that it finds is the one behind the code,
and the line is cut there. Where it finds a comment in any line whatever, the cut is in front of two
slashes, and not inside of a character (`Comments.exists_slice?_of_comment?`).

`Comments.drop_joined` is about whole texts: lines of code with or without comments, joined by line
feeds with or without carriage returns, are left as their code, joined by line feeds.
-/

namespace ModuleBundler.Comments

/-! ### Code -/

/-- What may stand between the quotes of a string. -/
inductive Inside : List Char → Prop
  /-- Nothing. -/
  | nil : Inside []
  /-- A character that means itself. -/
  | plain {c : Char} {rest : List Char} (hquote : c ≠ '"') (hbackslash : c ≠ '\\')
    (h : Inside rest) : Inside (c :: rest)
  /-- A backslash and the character that it escapes. -/
  | escaped (c : Char) {rest : List Char} (h : Inside rest) : Inside ('\\' :: c :: rest)

/-- What code is made of. -/
inductive Token where
  /-- A character outside of strings. -/
  | char (c : Char) (h : c ≠ '"')
  /-- A string with what is between its quotes. -/
  | string (inside : List Char) (h : Inside inside)

namespace Token

/-- The characters of a token. -/
def text : Token → List Char
  | char c _ => [c]
  | string inside _ => '"' :: inside ++ ['"']

/-- Whether a token is a slash. -/
def isSlash : Token → Bool
  | char c _ => c == '/'
  | string _ _ => false

end Token

/-- The part of a line that is code. -/
structure IsCode (code : String) : Prop where
  /-- There is no line feed in it. -/
  noFeed : '\n' ∉ code.toList
  /-- There is no carriage return in it. -/
  noReturn : '\r' ∉ code.toList
  /-- Its strings are closed, and outside of them are no two slashes in a row and none at the end.
  -/
  tokens : ∃ tokens : List Token, code.toList = tokens.flatMap Token.text ∧
    tokens.IsChain (fun t t' ↦ t.isSlash = true → t'.isSlash = false) ∧
    ∀ t ∈ tokens.getLast?, t.isSlash = false

/-- A line: code, and a comment behind it if there is one. -/
structure Line where
  /-- The code. -/
  code : String
  /-- What the comment says. -/
  comment : Option String := none

namespace Line

/-- A line as it is written. -/
def text (line : Line) : String :=
  match line.comment with
  | none => line.code
  | some comment => line.code ++ "//" ++ comment

/-- The code of a line is code, and its comment ends with the line. -/
structure Valid (line : Line) : Prop where
  /-- The code is code. -/
  code : IsCode line.code
  /-- There is no line feed in the comment. -/
  comment : ∀ comment ∈ line.comment, '\n' ∉ comment.toList

end Line

/-- What ends a line that is not the last. -/
inductive LineBreak where
  /-- A line feed. -/
  | feed
  /-- A carriage return and a line feed. -/
  | returnFeed
  deriving DecidableEq, Repr

/-- The carriage return of a line break, if it has one. -/
def LineBreak.returns : LineBreak → List Char
  | feed => []
  | returnFeed => ['\r']

/-- Lines with line breaks between them. -/
def joined : List (Line × LineBreak) → Line → String
  | [], last => last.text
  | (line, lineBreak) :: rest, last =>
    line.text ++ String.ofList (lineBreak.returns ++ ['\n']) ++ joined rest last

/-! ### Reading code -/

variable {s s' s'' : Scan} {c : Char} {p : Option Char} {offset n : Nat} {front rest : List Char}

/-- How many bytes characters have. -/
def byteLength (cs : List Char) : Nat :=
  (cs.flatMap String.utf8EncodeChar).length

theorem byteLength_append (front rest : List Char) :
    byteLength (front ++ rest) = byteLength front + byteLength rest := by
  rw [byteLength, List.flatMap_append, List.length_append, byteLength, byteLength]

theorem byteLength_singleton (c : Char) : byteLength [c] = c.utf8Size := by
  rw [byteLength, List.flatMap_singleton, String.length_utf8EncodeChar]

namespace Scan

/-- Reading characters finds no comment, and leads from one state to another. -/
def Passes (s : Scan) (front : List Char) (s' : Scan) : Prop :=
  ∀ offset rest, s.comment? offset (front ++ rest) = s'.comment? (offset + byteLength front) rest

theorem Passes.nil (s : Scan) : s.Passes [] s :=
  fun _ _ ↦ rfl

theorem Passes.append (h : s.Passes front s') (h' : s'.Passes rest s'') :
    s.Passes (front ++ rest) s'' := by
  intro offset more
  rw [List.append_assoc, h, h', byteLength_append, Nat.add_assoc]

theorem passes_singleton (h : s.opens c = false) : s.Passes [c] (s.next c) := by
  intro offset rest
  rw [byteLength_singleton, List.singleton_append, comment?, if_neg (by simp [h])]

theorem Passes.cons (h : s.opens c = false) (h' : (s.next c).Passes front s') :
    s.Passes (c :: front) s' :=
  (passes_singleton h).append h'

/-- A reader outside of strings, behind the given character. -/
def outside (p : Option Char) : Scan := ⟨false, false, p⟩

/-- A reader inside of a string, behind the given character. -/
def inside (p : Option Char) : Scan := ⟨true, false, p⟩

end Scan

open Scan

/-- What stands inside of a string is read to its end. -/
theorem Inside.exists_passes {text : List Char} (h : Inside text) (p : Option Char) :
    ∃ p', (inside p).Passes text (inside p') := by
  induction h generalizing p with
  | nil => exact ⟨p, .nil _⟩
  | @plain c rest hquote hbackslash _ ih =>
    have hnext : (inside p).next c = inside (some c) := by
      simp [inside, next, hquote, hbackslash]
    obtain ⟨p', hp'⟩ := ih (some c)
    exact ⟨p', .cons rfl (hnext ▸ hp')⟩
  | @escaped c rest _ ih =>
    have hnext : ((inside p).next '\\').next c = inside (some c) := rfl
    obtain ⟨p', hp'⟩ := ih (some c)
    exact ⟨p', .cons rfl (.cons rfl (hnext ▸ hp'))⟩

/-- A token is read to its end, unless it is the second of two slashes. -/
theorem Token.exists_passes (t : Token) (h : p = some '/' → t.isSlash = false) :
    ∃ p', (outside p).Passes t.text (outside p') ∧ (p' = some '/' → t.isSlash = true) := by
  rcases t with ⟨c, hc⟩ | ⟨text, htext⟩
  · have hopens : (outside p).opens c = false := by
      by_cases hp : p = some '/'
      · have hslash : (c == '/') = false := h hp
        simp [opens, hslash]
      · simp [opens, outside, hp]
    have hnext : (outside p).next c = outside (some c) := by
      simp [outside, next, hc]
    refine ⟨some c, hnext ▸ passes_singleton hopens, fun hlast ↦ ?_⟩
    exact beq_iff_eq.2 (Option.some.inj hlast)
  · obtain ⟨p', hp'⟩ := htext.exists_passes (some '"')
    have hopened : (outside p).next '"' = inside (some '"') := rfl
    have hclosed : (inside p').next '"' = outside (some '"') := rfl
    refine ⟨some '"', .cons (by simp [opens]) ?_, fun hlast ↦ by simp at hlast⟩
    exact hopened ▸ hp'.append (hclosed ▸ passes_singleton rfl)

/-- **A row of tokens is read to its end**, if no slash stands behind another. -/
theorem exists_passes_tokens {tokens : List Token}
    (hchain : tokens.IsChain fun t t' ↦ t.isSlash = true → t'.isSlash = false)
    (hfirst : p = some '/' → ∀ t ∈ tokens.head?, t.isSlash = false) :
    ∃ p', (outside p).Passes (tokens.flatMap Token.text) (outside p') ∧
      (p' = some '/' → (tokens = [] ∧ p = some '/') ∨ ∃ t ∈ tokens.getLast?, t.isSlash = true) := by
  induction tokens generalizing p with
  | nil => exact ⟨p, .nil _, fun hp ↦ Or.inl ⟨rfl, hp⟩⟩
  | cons t tokens ih =>
    obtain ⟨hnext, hchain⟩ := List.isChain_cons.1 hchain
    obtain ⟨p₁, hpasses, hp₁⟩ := t.exists_passes fun hp ↦ hfirst hp t rfl
    obtain ⟨p', hpasses', hp'⟩ := ih hchain fun hslash t' ht' ↦ hnext t' ht' (hp₁ hslash)
    refine ⟨p', hpasses.append hpasses', fun hslash ↦ Or.inr ?_⟩
    -- the slash in the end is that of this token if nothing follows it
    rcases hp' hslash with ⟨rfl, hslash₁⟩ | ⟨t', ht', hslash'⟩
    · exact ⟨t, rfl, hp₁ hslash₁⟩
    · refine ⟨t', ?_, hslash'⟩
      rw [List.getLast?_cons, Option.mem_def.1 ht']
      rfl

/-- Code is read to its end, which is outside of strings and behind no slash. -/
theorem IsCode.exists_passes {code : String} (h : IsCode code) :
    ∃ p, (outside none).Passes code.toList (outside p) ∧ p ≠ some '/' := by
  obtain ⟨tokens, htokens, hchain, hlast⟩ := h.tokens
  obtain ⟨p, hpasses, hp⟩ := exists_passes_tokens (p := none) hchain nofun
  refine ⟨p, htokens ▸ hpasses, fun hslash ↦ ?_⟩
  rcases hp hslash with ⟨-, hnone⟩ | ⟨t, ht, hslash⟩
  · cases hnone
  · rw [hlast t ht] at hslash
    cases hslash

/-! ### Where a line is cut -/

theorem length_encode (s : String) : (Utf8.encode s).length = byteLength s.toList :=
  rfl

/-- A text can be cut between its characters. -/
theorem slice?_append (front rest : String) :
    slice? (front ++ rest) (byteLength front.toList) = some front := by
  have hencode : Utf8.encode (front ++ rest) = Utf8.encode front ++ Utf8.encode rest := by
    rw [Utf8.encode, String.toList_append, List.flatMap_append, Utf8.encode, Utf8.encode]
  rw [slice?, hencode, List.length_append, length_encode, if_pos (Nat.le_add_right _ _),
    List.take_left' (length_encode front), Utf8.decode?_eq_some.2 rfl]

theorem previous_next (s : Scan) (c : Char) : (s.next c).previous = some c := by
  rw [next]
  split_ifs <;> rfl

/-- **A comment is found in front of two slashes**, whatever stands in front of them. -/
theorem exists_append_of_comment? (before : List Char) (hoffset : offset = byteLength before)
    (hprevious : s.previous = before.getLast?) (h : s.comment? offset rest = some n) :
    ∃ front more, before ++ rest = front ++ '/' :: '/' :: more ∧ n = byteLength front := by
  -- by what is left to read, with what was read in `before`
  induction rest generalizing s offset before with
  | nil => cases h
  | cons c rest ih =>
    rw [comment?] at h
    split at h
    case isTrue hopens =>
      obtain ⟨⟨-, hc⟩, hslash⟩ : (_ ∧ c = '/') ∧ s.previous = some '/' := by
        simpa [opens] using hopens
      obtain ⟨front, rfl⟩ := List.getLast?_eq_some_iff.1 (hprevious.symm.trans hslash)
      refine ⟨front, rest, by simp [hc], ?_⟩
      have hone : byteLength ['/'] = 1 := by decide
      rw [byteLength_append, hone] at hoffset
      have hn := Option.some.inj h
      omega
    case isFalse =>
      have hread : offset + c.utf8Size = byteLength (before ++ [c]) := by
        rw [hoffset, byteLength_append, byteLength_singleton]
      rw [← List.singleton_append, ← List.append_assoc]
      exact ih (before ++ [c]) hread (by rw [previous_next, List.getLast?_concat]) h

/-- **A line is never cut inside of a character**, and what is dropped begins with two slashes. -/
theorem exists_slice?_of_comment? {line : String} (h : comment? {} 0 line.toList = some n) :
    ∃ front more : String, line = front ++ "//" ++ more ∧ slice? line n = some front := by
  obtain ⟨front, more, hline, rfl⟩ := exists_append_of_comment? [] rfl rfl h
  have hslashes : "//".toList = ['/', '/'] := rfl
  have hcut : line = String.ofList front ++ "//" ++ String.ofList more := by
    rw [← String.toList_inj, String.toList_append, String.toList_append, hslashes,
      String.toList_ofList, String.toList_ofList]
    simpa using hline
  refine ⟨_, _, hcut, ?_⟩
  have hslice := slice?_append (String.ofList front) ("//" ++ String.ofList more)
  rwa [← String.append_assoc, ← hcut, String.toList_ofList] at hslice

/-- A comment is found behind no slash. -/
theorem comment?_slashes (hp : p ≠ some '/') (offset : Nat) (rest : List Char) :
    (outside p).comment? offset ('/' :: '/' :: rest) = some offset := by
  have hfirst : (outside p).opens '/' = false := by simp [opens, outside, hp]
  have hsecond : ((outside p).next '/').opens '/' = true := rfl
  have hone : '/'.utf8Size = 1 := by decide
  rw [comment?, hfirst, if_neg Bool.false_ne_true, comment?, if_pos hsecond, hone,
    Nat.add_sub_cancel]

/-- **What is left of a line is its code.** -/
theorem Line.code_text {line : Line} (h : IsCode line.code) :
    Comments.code line.text = line.code := by
  obtain ⟨p, hpasses, hp⟩ := h.exists_passes
  obtain ⟨code, - | comment⟩ := line
  · have hnone : comment? {} 0 code.toList = none := by
      rw [← List.append_nil code.toList]
      exact hpasses 0 []
    rw [Comments.code, text, hnone]
  · have htext : text ⟨code, some comment⟩ = code ++ ("//" ++ comment) := String.append_assoc
    have hslashes : "//".toList = ['/', '/'] := rfl
    have hfound : comment? {} 0 (code ++ ("//" ++ comment)).toList =
        some (byteLength code.toList) := by
      rw [String.toList_append, String.toList_append, hslashes]
      refine (hpasses 0 _).trans ?_
      rw [Nat.zero_add]
      exact comment?_slashes hp _ _
    rw [htext, Comments.code, hfound]
    simp only [slice?_append, Option.getD_some]

/-! ### Where a text is cut -/

/-- All pieces but the last are lines. -/
theorem linesOfPieces_concat (front : List (List Char)) {last : List Char} (hlast : last ≠ []) :
    linesOfPieces (front ++ [last]) = front.map withoutReturn ++ [last] := by
  induction front with
  | nil => simp [linesOfPieces, hlast]
  | cons piece front ih =>
    have hne : front ++ [last] ≠ [] := List.append_ne_nil_of_right_ne_nil _ (List.cons_ne_nil _ _)
    rw [List.cons_append, linesOfPieces.eq_3 _ _ hne, ih, List.map_cons, List.cons_append]

theorem withoutReturn_concat (cs : List Char) : withoutReturn (cs ++ ['\r']) = cs := by
  rw [withoutReturn, if_pos List.getLast?_concat, List.dropLast_concat]

namespace Line

variable {line last : Line} {lines : List (Line × LineBreak)}

theorem Valid.noFeed_text (h : line.Valid) : '\n' ∉ line.text.toList := by
  obtain ⟨code, - | comment⟩ := line
  · exact h.code.noFeed
  · have hslashes : '\n' ∉ "//".toList := by decide
    rw [text, String.toList_append, String.toList_append]
    simp only [List.mem_append, not_or]
    exact ⟨⟨h.code.noFeed, hslashes⟩, h.comment comment rfl⟩

/-- Without its carriage return, a line is a line with the same code: the carriage return belongs to
the line break, or to the comment. -/
theorem Valid.exists_withoutReturn (h : line.Valid) (lineBreak : LineBreak) :
    ∃ line' : Line, line'.code = line.code ∧
      withoutReturn (line.text.toList ++ lineBreak.returns) = line'.text.toList := by
  cases lineBreak with
  | returnFeed => exact ⟨line, rfl, withoutReturn_concat _⟩
  | feed =>
    rw [LineBreak.returns, List.append_nil]
    by_cases hreturn : line.text.toList.getLast? = some '\r'
    · obtain ⟨code, - | comment⟩ := line
      · exact absurd (List.mem_of_getLast? hreturn) h.code.noReturn
      · have hslash : (code ++ "//").toList.getLast? = some '/' := by simp
        have hcomment : comment.toList.getLast? = some '\r' := by
          rw [text, String.toList_append, List.getLast?_append, hslash] at hreturn
          rcases hlast : comment.toList.getLast? with - | c
          · rw [hlast] at hreturn
            cases hreturn
          · rwa [hlast, Option.some_or] at hreturn
        obtain ⟨front, hfront⟩ := List.getLast?_eq_some_iff.1 hcomment
        refine ⟨⟨code, some (String.ofList front)⟩, rfl, ?_⟩
        have htext : (text ⟨code, some (String.ofList front)⟩).toList =
            (code ++ "//").toList ++ front := by
          rw [text, String.toList_append, String.toList_ofList]
        rw [htext, text, String.toList_append, hfront, ← List.append_assoc, withoutReturn_concat]
    · exact ⟨line, rfl, by rw [withoutReturn, if_neg hreturn]⟩

/-- The pieces between the line feeds are the lines, with the carriage returns of the line breaks.
-/
theorem splitOn_joined (hlines : ∀ l ∈ lines, l.1.Valid) (hlast : last.Valid) :
    (joined lines last).toList.splitOn '\n' =
      lines.map (fun l ↦ l.1.text.toList ++ l.2.returns) ++ [last.text.toList] := by
  induction lines with
  | nil => exact List.splitOn_eq_singleton hlast.noFeed_text
  | cons l lines ih =>
    obtain ⟨hl, hlines⟩ := List.forall_mem_cons.1 hlines
    have hpiece : '\n' ∉ l.1.text.toList ++ l.2.returns := by
      have hreturns : '\n' ∉ l.2.returns := by cases l.2 <;> decide
      simp only [List.mem_append, not_or]
      exact ⟨hl.noFeed_text, hreturns⟩
    have hjoined : (joined (l :: lines) last).toList =
        (l.1.text.toList ++ l.2.returns) ++ '\n' :: (joined lines last).toList := by
      rw [joined, String.toList_append, String.toList_append, String.toList_ofList]
      simp
    rw [hjoined, List.splitOn_append_cons_self_of_not_mem hpiece, ih hlines, List.map_cons,
      List.cons_append]

/-- What is left of the lines is their code. -/
theorem map_code_lines (hlines : ∀ l ∈ lines, l.1.Valid) (hlast : last.Valid)
    (hne : last.text ≠ "") :
    (Comments.lines (joined lines last)).map Comments.code =
      lines.map (fun l ↦ l.1.code) ++ [last.code] := by
  have hpiece : last.text.toList ≠ [] := fun hnil ↦ hne (String.toList_eq_nil_iff.1 hnil)
  rw [Comments.lines, splitOn_joined hlines hlast, linesOfPieces_concat _ hpiece, List.map_append,
    List.map_append, List.map_singleton, List.map_singleton, String.ofList_toList,
    code_text hlast.code, List.map_map, List.map_map, List.map_map]
  congr 1
  refine List.map_congr_left fun l hl ↦ ?_
  obtain ⟨line', hcode, hline'⟩ := (hlines l hl).exists_withoutReturn l.2
  simp only [Function.comp_apply]
  rw [hline', String.ofList_toList, code_text (hcode ▸ (hlines l hl).code), hcode]

end Line

/-- **Exactly the comments are dropped.** Lines of code with or without comments, of which the last
is not empty, are left as their code, joined by line feeds, whatever line breaks joined them. And of
no line at all, be it code or not, is a part of a character cut off: what is left of it is the text
in front of two slashes. -/
theorem drop_joined (lines : List (Line × LineBreak)) (last : Line)
    (hlines : ∀ l ∈ lines, l.1.Valid) (hlast : last.Valid) (hne : last.text ≠ "") :
    drop (joined lines last) = "\n".intercalate (lines.map (fun l ↦ l.1.code) ++ [last.code]) ∧
    ∀ (line : String) (offset : Nat), comment? {} 0 line.toList = some offset →
      ∃ front more : String, line = front ++ "//" ++ more ∧ slice? line offset = some front := by
  refine ⟨?_, fun line offset ↦ exists_slice?_of_comment?⟩
  rw [drop, Line.map_code_lines hlines hlast hne]

/-- A string with slashes and an escaped quote, and a slash outside of it. -/
def quotedCode : String := "\"ü//\\\"\" / 1"

theorem inside_quotedCode : Inside ['ü', '/', '/', '\\', '"'] :=
  .plain (by decide) (by decide) <| .plain (by decide) (by decide) <|
    .plain (by decide) (by decide) <| .escaped '"' .nil

theorem isCode_quotedCode : IsCode quotedCode where
  noFeed := by decide
  noReturn := by decide
  tokens := ⟨[.string _ inside_quotedCode, .char ' ' (by decide), .char '/' (by decide),
    .char ' ' (by decide), .char '1' (by decide)], by decide, by decide, by decide⟩

/-- A string that ends in an escaped backslash. -/
def backslashCode : String := "\"\\\\\""

theorem isCode_backslashCode : IsCode backslashCode where
  noFeed := by decide
  noReturn := by decide
  tokens := ⟨[.string _ (.escaped '\\' .nil)], by decide, by decide, by decide⟩

/-- A comment with a quote that is not closed, a line with nothing but a comment that ends in a
carriage return, and a comment of slashes. The comment on the first line is found behind twelve
bytes. -/
theorem drop_joined_quotedCode :
    drop (joined [(⟨quotedCode, some "é \""⟩, .returnFeed), (⟨"", some "\r"⟩, .feed),
        (⟨backslashCode, none⟩, .feed)] ⟨"1", some "/ //"⟩) =
      "\"ü//\\\"\" / 1\n\n\"\\\\\"\n1" ∧
    comment? {} 0 (quotedCode ++ "//é").toList = some 12 ∧
    ∃ front more : String, quotedCode ++ "//é" = front ++ "//" ++ more ∧
      slice? (quotedCode ++ "//é") 12 = some front := by
  have hempty : IsCode "" := ⟨by decide, by decide, [], by decide, by decide, by decide⟩
  have hone : IsCode "1" :=
    ⟨by decide, by decide, [.char '1' (by decide)], by decide, by decide, by decide⟩
  have hlines : ∀ l ∈ [((⟨quotedCode, some "é \""⟩ : Line), LineBreak.returnFeed),
      (⟨"", some "\r"⟩, .feed), (⟨backslashCode, none⟩, .feed)], l.1.Valid := by
    simp only [List.mem_cons, List.not_mem_nil, or_false, forall_eq_or_imp, forall_eq]
    exact ⟨⟨isCode_quotedCode, by decide⟩, ⟨hempty, by decide⟩, ⟨isCode_backslashCode, by decide⟩⟩
  have hlast : Line.Valid ⟨"1", some "/ //"⟩ := ⟨hone, by decide⟩
  have hfound : comment? {} 0 (quotedCode ++ "//é").toList = some 12 := by decide
  obtain ⟨hdrop, hcut⟩ := drop_joined _ _ hlines hlast (by decide)
  refine ⟨?_, hfound, hcut _ _ hfound⟩
  rw [hdrop]
  decide

end ModuleBundler.Comments
