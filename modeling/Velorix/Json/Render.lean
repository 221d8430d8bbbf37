import Velorix.Foundation.DelimitedText
import Velorix.Json.Tree

/-! The two renderings of a JSON value that the engine uses as map keys. Both are
instances of one recursive rendering whose style fixes the string escapes, the
text of a field name and the order of the fields. A text stands for its UTF-8
bytes, whose order is the order of the code points. -/
namespace Velorix.Json

open DelimitedText DecimalText

/-- How strings, field names and fields are written. -/
structure TextStyle where
  escape : Char → List Char
  name : String → List Char
  arrange : List (String × List Char) → List (List Char)

/-- A field between its neighbours' commas, from its name and rendered value. -/
def fieldText (name : String → List Char) (field : String × List Char) : List Char :=
  '"' :: (name field.1 ++ '"' :: ':' :: field.2)

mutual

def renderTree (style : TextStyle) : JsonTree → List Char
  | .null => ['n', 'u', 'l', 'l']
  | .bool false => ['f', 'a', 'l', 's', 'e']
  | .bool true => ['t', 'r', 'u', 'e']
  | .number n => n.text
  | .string s => '"' :: (escaped style.escape s.toList ++ ['"'])
  | .array items => '[' :: ([','].intercalate (renderItems style items) ++ [']'])
  | .object fields =>
    '{' :: ([','].intercalate (style.arrange (renderFields style fields)) ++ ['}'])

def renderItems (style : TextStyle) : List JsonTree → List (List Char)
  | [] => []
  | x :: xs => renderTree style x :: renderItems style xs

def renderFields (style : TextStyle) : List (String × JsonTree) → List (String × List Char)
  | [] => []
  | (name, x) :: xs => (name, renderTree style x) :: renderFields style xs

end

section Escapes

def hexChar (d : ℕ) : Char := if d < 10 then Char.ofNat (48 + d) else Char.ofNat (87 + d)

/-- Backslash escapes: a letter for the characters of the table, four hex digits for
the characters `long` picks. -/
def escapeWith (table : List (Char × Char)) (long : Char → Bool) (c : Char) : List Char :=
  match table.lookup c with
  | some k => ['\\', k]
  | none =>
    if long c then ['\\', 'u', '0', '0', hexChar (c.toNat / 16), hexChar (c.toNat % 16)] else [c]

/-- The escapes of `encode_json_ordered`. -/
def orderedEscape : Char → List Char :=
  escapeWith [('"', '"'), ('\\', '\\'), ('\n', 'n'), ('\r', 'r'), ('\t', 't')]
    fun c => c.toNat < 32 || c.toNat == 127

def serdeEscape : Char → List Char :=
  escapeWith [('"', '"'), ('\\', '\\'), (Char.ofNat 8, 'b'), (Char.ofNat 12, 'f'), ('\n', 'n'),
    ('\r', 'r'), ('\t', 't')] fun c => c.toNat < 32

/-- What makes a table of backslash escapes readable. -/
structure EscapeLaws (table : List (Char × Char)) (long : Char → Bool) : Prop where
  letters : (table.map Prod.snd).Nodup
  no_u : 'u' ∉ table.map Prod.snd
  backslash : table.lookup '\\' ≠ none
  quote : table.lookup '"' ≠ none
  long_lt : ∀ {c}, long c = true → c.toNat < 128

variable {table : List (Char × Char)} {long : Char → Bool}

private theorem hexChar_inj {a b : ℕ} (ha : a < 16) (hb : b < 16) (h : hexChar a = hexChar b) :
    a = b := by
  interval_cases a <;> interval_cases b <;> first | rfl | exact absurd h (by decide)

private theorem mem_of_lookup {c k : Char} (h : table.lookup c = some k) : (c, k) ∈ table := by
  obtain ⟨before, after, rfl, -⟩ := List.lookup_eq_some_iff.mp h
  exact List.mem_append_right _ (List.mem_cons_self ..)

theorem escapeWith_cases (laws : EscapeLaws table long) (c : Char) :
    (∃ k, (c, k) ∈ table ∧ k ≠ 'u' ∧ escapeWith table long c = ['\\', k]) ∨
    (c.toNat < 128 ∧ escapeWith table long c =
      ['\\', 'u', '0', '0', hexChar (c.toNat / 16), hexChar (c.toNat % 16)]) ∨
    (c ≠ '\\' ∧ c ≠ '"' ∧ escapeWith table long c = [c]) := by
  unfold escapeWith
  rcases hk : table.lookup c with _ | k
  · by_cases hl : long c = true
    · exact Or.inr (Or.inl ⟨laws.long_lt hl, by simp [hl]⟩)
    · refine Or.inr (Or.inr ⟨?_, ?_, by simp [hl]⟩)
      · rintro rfl
        exact laws.backslash hk
      · rintro rfl
        exact laws.quote hk
  · have hmem := mem_of_lookup hk
    refine Or.inl ⟨k, hmem, ?_, rfl⟩
    rintro rfl
    exact laws.no_u (List.mem_map.mpr ⟨_, hmem, rfl⟩)

theorem escapeWith_startsOff (laws : EscapeLaws table long) (c : Char) :
    StartsOff '"' (escapeWith table long c) := by
  rcases escapeWith_cases laws c with ⟨k, -, -, h⟩ | ⟨-, h⟩ | ⟨-, hq, h⟩
  · exact ⟨_, _, h, by decide⟩
  · exact ⟨_, _, h, by decide⟩
  · exact ⟨_, _, h, hq⟩

theorem escapeWith_prefixFree (laws : EscapeLaws table long) :
    PrefixFree (escapeWith table long) := by
  intro c d s t h
  rcases escapeWith_cases laws c with ⟨k, hk, hku, hc⟩ | ⟨hlc, hc⟩ | ⟨hbc, -, hc⟩ <;>
    rcases escapeWith_cases laws d with ⟨l, hl, hlu, hd⟩ | ⟨hld, hd⟩ | ⟨hbd, -, hd⟩ <;>
    simp only [hc, hd, List.cons_append, List.nil_append, List.cons.injEq, true_and] at h
  · obtain ⟨rfl, rfl⟩ := h
    exact ⟨congrArg Prod.fst (List.inj_on_of_nodup_map laws.letters hk hl rfl), rfl⟩
  · exact absurd h.1 hku
  · exact absurd h.1.symm hbd
  · exact absurd h.1.symm hlu
  · have hhi := hexChar_inj (by omega) (by omega) h.1
    have hlo := hexChar_inj (by omega) (by omega) h.2.1
    have hn : c.toNat = d.toNat := by omega
    exact ⟨Char.toNat_inj.mp hn, h.2.2⟩
  · exact absurd h.1.symm hbd
  · exact absurd h.1 hbc
  · exact absurd h.1 hbc
  · exact h

theorem orderedEscape_laws : EscapeLaws
    [('"', '"'), ('\\', '\\'), ('\n', 'n'), ('\r', 'r'), ('\t', 't')]
    (fun c => c.toNat < 32 || c.toNat == 127) where
  letters := by decide
  no_u := by decide
  backslash := by decide
  quote := by decide
  long_lt {c} h := by
    simp only [Bool.or_eq_true, decide_eq_true_eq, beq_iff_eq] at h
    omega

theorem serdeEscape_laws : EscapeLaws
    [('"', '"'), ('\\', '\\'), (Char.ofNat 8, 'b'), (Char.ofNat 12, 'f'), ('\n', 'n'),
      ('\r', 'r'), ('\t', 't')] (fun c => decide (c.toNat < 32)) where
  letters := by decide
  no_u := by decide
  backslash := by decide
  quote := by decide
  long_lt {c} h := by
    rw [decide_eq_true_eq] at h
    omega

end Escapes

/-- `encode_json_ordered`: fields sorted by name, names written as they are. -/
def orderedStyle : TextStyle where
  escape := orderedEscape
  name := String.toList
  arrange fields := (fields.insertionSort fun a b => a.1 ≤ b.1).map (fieldText String.toList)

/-- `canonical_json`: names escaped, the rendered fields sorted as texts. -/
def canonicalStyle : TextStyle where
  escape := serdeEscape
  name name := escaped serdeEscape name.toList
  arrange fields :=
    (fields.map (fieldText fun name => escaped serdeEscape name.toList)).insertionSort (· ≤ ·)

def encodeJsonOrdered (value : Value) : List Char := renderTree orderedStyle value.tree

def encodeKvOrdered (key value : Value) : List Char :=
  encodeJsonOrdered key ++ encodeJsonOrdered value

def canonicalJson (value : Value) : List Char := renderTree canonicalStyle value.tree

mutual

/-- Every field name of the tree satisfies `p`. -/
def JsonTree.allNames (p : String → Bool) : JsonTree → Bool
  | .array items => allNamesItems p items
  | .object fields => allNamesFields p fields
  | _ => true

def JsonTree.allNamesItems (p : String → Bool) : List JsonTree → Bool
  | [] => true
  | x :: xs => x.allNames p && allNamesItems p xs

def JsonTree.allNamesFields (p : String → Bool) : List (String × JsonTree) → Bool
  | [] => true
  | (name, x) :: xs => p name && (x.allNames p && allNamesFields p xs)

end

section Uniqueness

variable {p : String → Bool} {items : List JsonTree}

theorem JsonTree.allNames_array :
    (JsonTree.array items).allNames p = true ↔ ∀ x ∈ items, x.allNames p = true := by
  rw [allNames]
  induction items with
  | nil => simp [allNamesItems]
  | cons x xs ih => simp [allNamesItems, ih]

variable {fields : List (String × JsonTree)}

theorem JsonTree.allNames_object :
    (JsonTree.object fields).allNames p = true ↔
      ∀ f ∈ fields, p f.1 = true ∧ f.2.allNames p = true := by
  rw [allNames]
  induction fields with
  | nil => simp [allNamesFields]
  | cons x xs ih => simp [allNamesFields, ih, and_assoc]

theorem renderItems_eq (style : TextStyle) (items : List JsonTree) :
    renderItems style items = items.map (renderTree style) := by
  induction items with
  | nil => rfl
  | cons x xs ih => rw [renderItems, ih, List.map_cons]

theorem renderFields_eq (style : TextStyle) (fields : List (String × JsonTree)) :
    renderFields style fields = fields.map fun f => (f.1, renderTree style f.2) := by
  induction fields with
  | nil => rfl
  | cons x xs ih => rw [renderFields, ih, List.map_cons]

/-- What a style needs for its renderings to be readable on trees whose field names
are all clean. -/
structure TextStyle.Laws (style : TextStyle) (clean : String → Bool) : Prop where
  escape_free : PrefixFree style.escape
  escape_start : ∀ c, StartsOff '"' (style.escape c)
  name_inj : ∀ {m n s t}, clean m = true → clean n = true →
    style.name m ++ '"' :: s = style.name n ++ '"' :: t → m = n ∧ s = t
  arrange_map : ∀ fields, ∃ order, List.Perm order fields ∧
    style.arrange fields = order.map (fieldText style.name)

/-- The first character tells the kinds of tree apart. -/
def headKind (c : Char) : ℕ :=
  if c = 'n' then 0 else if c = 'f' then 1 else if c = 't' then 2 else if c = '"' then 3
  else if c = '[' then 4 else if c = '{' then 5
  else if isDigit c || c == '-' then 6 else 7

def JsonTree.kind : JsonTree → ℕ
  | .null => 0
  | .bool false => 1
  | .bool true => 2
  | .string _ => 3
  | .array _ => 4
  | .object _ => 5
  | .number _ => 6

variable {c : Char}

theorem headKind_number (h : (isDigit c || c == '-') = true) : headKind c = 6 := by
  have hne {d : Char} (hd : (isDigit d || d == '-') = false) : c ≠ d := by
    rintro rfl
    simp [h] at hd
  rw [headKind, if_neg (hne (by decide)), if_neg (hne (by decide)), if_neg (hne (by decide)),
    if_neg (hne (by decide)), if_neg (hne (by decide)), if_neg (hne (by decide)), if_pos h]

theorem renderTree_head (style : TextStyle) (t : JsonTree) :
    ∃ c rest, renderTree style t = c :: rest ∧ headKind c = t.kind := by
  cases t with
  | null => exact ⟨_, _, rfl, by decide⟩
  | bool b => cases b <;> exact ⟨_, _, rfl, by decide⟩
  | number n =>
    obtain ⟨c, rest, h, hc⟩ := n.text_start
    exact ⟨c, rest, h, headKind_number hc⟩
  | string s | array items | object fields => exact ⟨_, _, rfl, rfl⟩

theorem renderTree_startsOff (style : TextStyle) (t : JsonTree)
    (hc : headKind c = 7) : StartsOff c (renderTree style t) := by
  obtain ⟨d, rest, h, hd⟩ := renderTree_head style t
  refine ⟨d, rest, h, ?_⟩
  rintro rfl
  rw [hc] at hd
  cases t with
  | bool b => cases b <;> cases hd
  | _ => cases hd

variable {a b : JsonTree} {s t : List Char}

theorem kind_eq_of_render_eq {style : TextStyle}
    (h : renderTree style a ++ s = renderTree style b ++ t) : a.kind = b.kind := by
  obtain ⟨c, _, hc, hca⟩ := renderTree_head style a
  obtain ⟨d, _, hd, hdb⟩ := renderTree_head style b
  rw [hc, hd, List.cons_append, List.cons_append] at h
  rw [← hca, ← hdb, (List.cons.inj h).1]

variable {style : TextStyle} {clean : String → Bool}

def Readable (clean : String → Bool) (t : JsonTree) : Prop :=
  t.ordered = true ∧ t.allNames clean = true

theorem Readable.item (h : Readable clean (.array items)) {x : JsonTree}
    (hx : x ∈ items) : Readable clean x :=
  ⟨JsonTree.ordered_array_iff.mp h.1 x hx, JsonTree.allNames_array.mp h.2 x hx⟩

theorem Readable.field (h : Readable clean (.object fields))
    {f : String × JsonTree} (hf : f ∈ fields) : clean f.1 = true ∧ Readable clean f.2 :=
  have hn := JsonTree.allNames_object.mp h.2 f hf
  ⟨hn.1, (JsonTree.ordered_object_iff.mp h.1).2 f hf, hn.2⟩

private theorem array_text (style : TextStyle) (items : List JsonTree) (s : List Char) :
    renderTree style (.array items) ++ s =
      '[' :: (listText (renderTree style) ',' ']' items ++ s) := by
  rw [renderTree, renderItems_eq, List.cons_append, intercalate_close]

/-- The text of a field whose value is still a tree. -/
private def treeField (style : TextStyle) (f : String × JsonTree) : List Char :=
  fieldText style.name (f.1, renderTree style f.2)

private theorem exists_map_of_perm {α β : Type*} {f : α → β} {l : List β} {xs : List α}
    (h : l.Perm (xs.map f)) : ∃ ys, List.Perm ys xs ∧ l = ys.map f := by
  have hm : List.Forall₂ (fun b a => b = f a) (xs.map f) xs :=
    List.forall₂_map_left_iff.mpr (List.forall₂_same.mpr fun _ _ => rfl)
  obtain ⟨ys, hys, hp⟩ := List.perm_comp_forall₂ h hm
  refine ⟨ys, hp, ?_⟩
  rw [← List.forall₂_eq_eq_eq, List.forall₂_map_right_iff]
  exact hys

private theorem object_text (laws : style.Laws clean) (fields : List (String × JsonTree)) :
    ∃ order, List.Perm order fields ∧ ∀ s, renderTree style (.object fields) ++ s =
      '{' :: (listText (treeField style) ',' '}' order ++ s) := by
  obtain ⟨texts, hperm, ht⟩ := laws.arrange_map (renderFields style fields)
  rw [renderFields_eq] at hperm
  obtain ⟨order, hp, rfl⟩ := exists_map_of_perm hperm
  refine ⟨order, hp, fun s => ?_⟩
  rw [renderTree, ht, List.map_map, List.cons_append, intercalate_close]
  rfl

private theorem sorted_fields_unique {as bs : List (String × JsonTree)}
    (ha : as.Pairwise fun a b => a.1 < b.1) (hb : bs.Pairwise fun a b => a.1 < b.1)
    (h : as.Perm bs) : as = bs :=
  h.eq_of_pairwise (fun _ _ _ _ hab hba => (lt_asymm hab hba).elim) ha hb

/-- A readable tree and the rest of the text are determined by their concatenation,
as long as the rest does not continue a number at the end of the tree. -/
theorem renderTree_inj (laws : style.Laws clean)
    (ha : Readable clean a) (hb : Readable clean b)
    (hs : a.kind = 6 → Stops (fun c => isNumberChar c = true) s)
    (ht : a.kind = 6 → Stops (fun c => isNumberChar c = true) t)
    (h : renderTree style a ++ s = renderTree style b ++ t) : a = b ∧ s = t := by
  induction a using JsonTree.induct generalizing b s t with
  | null =>
    cases b with
    | null => exact ⟨rfl, List.append_cancel_left h⟩
    | bool b => cases b <;> cases kind_eq_of_render_eq h
    | _ => cases kind_eq_of_render_eq h
  | bool x =>
    have hk := kind_eq_of_render_eq h
    cases b with
    | bool y =>
      cases x <;> cases y <;> first
        | exact ⟨rfl, List.append_cancel_left h⟩
        | cases hk
    | _ => cases x <;> cases hk
  | number n =>
    cases b with
    | number m =>
      obtain ⟨hnm, hst⟩ := inside_run_inj (fun _ => Number.text_numberChar)
        (fun _ => Number.text_numberChar) (hs rfl) (ht rfl) h
      exact ⟨by rw [Number.text_injective hnm], hst⟩
    | bool b => cases b <;> cases kind_eq_of_render_eq h
    | _ => cases kind_eq_of_render_eq h
  | string x =>
    cases b with
    | string y =>
      simp only [renderTree, List.cons_append, List.append_assoc, List.nil_append,
        List.cons.injEq, true_and] at h
      obtain ⟨hxy, hst⟩ := escaped_quote_inj laws.escape_free laws.escape_start h
      exact ⟨by rw [String.toList_injective hxy], hst⟩
    | bool b => cases b <;> cases kind_eq_of_render_eq h
    | _ => cases kind_eq_of_render_eq h
  | array items ih =>
    cases b with
    | array others =>
      rw [array_text, array_text] at h
      obtain ⟨hl, hst⟩ := listText_inj (P := Readable clean) (by decide) (by decide) (by decide)
        (fun x hx y s t hy hs ht hxy =>
          ih x hx (ha.item hx) hy (fun _ => hs) (fun _ => ht) hxy)
        (fun y hy => hb.item hy) (fun x _ => renderTree_startsOff style x (by decide))
        (fun y _ => renderTree_startsOff style y (by decide)) (List.cons.inj h).2
      exact ⟨by rw [hl], hst⟩
    | bool b => cases b <;> cases kind_eq_of_render_eq h
    | _ => cases kind_eq_of_render_eq h
  | object fields ih =>
    cases b with
    | object others =>
      obtain ⟨as, hpa, hta⟩ := object_text laws fields
      obtain ⟨bs, hpb, htb⟩ := object_text laws others
      rw [hta, htb] at h
      have hq (f : String × JsonTree) : StartsOff '}' (treeField style f) :=
        ⟨_, _, rfl, by decide⟩
      have hsep : ∀ f ∈ as, Separates (fun c => isNumberChar c = true) (treeField style)
          (fun f => clean f.1 = true ∧ Readable clean f.2) f := by
        intro f hf g s t hg hs ht hfg
        have hcf := ha.field (hpa.mem_iff.mp hf)
        simp only [treeField, fieldText, List.cons_append, List.append_assoc, List.cons.injEq,
          true_and] at hfg
        obtain ⟨hn, hr⟩ := laws.name_inj hcf.1 hg.1 hfg
        obtain ⟨hv, hst⟩ := ih f (hpa.mem_iff.mp hf) hcf.2 hg.2 (fun _ => hs) (fun _ => ht)
          (List.cons.inj hr).2
        exact ⟨Prod.ext hn hv, hst⟩
      obtain ⟨hl, hst⟩ := listText_inj (by decide) (by decide) (by decide) hsep
        (fun g hg => hb.field (hpb.mem_iff.mp hg)) (fun f _ => hq f) (fun g _ => hq g)
        (List.cons.inj h).2
      have hfields := sorted_fields_unique (JsonTree.ordered_object_iff.mp ha.1).1
        (JsonTree.ordered_object_iff.mp hb.1).1 (hpa.symm.trans (hl ▸ hpb))
      exact ⟨by rw [hfields], hst⟩
    | bool b => cases b <;> cases kind_eq_of_render_eq h
    | _ => cases kind_eq_of_render_eq h

theorem canonicalStyle_laws : canonicalStyle.Laws fun _ => true where
  escape_free := escapeWith_prefixFree serdeEscape_laws
  escape_start := escapeWith_startsOff serdeEscape_laws
  name_inj {m n s t} _ _ h := by
    obtain ⟨hmn, hst⟩ := escaped_quote_inj (escapeWith_prefixFree serdeEscape_laws)
      (escapeWith_startsOff serdeEscape_laws) h
    exact ⟨String.toList_injective hmn, hst⟩
  arrange_map fields := exists_map_of_perm (List.perm_insertionSort _ _)

/-- A field name is written back to back with its quotes, so it must not hold one. -/
def unquoted (name : String) : Bool := !name.toList.contains '"'

theorem orderedStyle_laws : orderedStyle.Laws unquoted where
  escape_free := escapeWith_prefixFree orderedEscape_laws
  escape_start := escapeWith_startsOff orderedEscape_laws
  name_inj {m n s t} hm hn h := by
    have hr {x : String} (hx : unquoted x = true) : ∀ c ∈ x.toList, c ≠ '"' := by
      rintro c hc rfl
      simp [unquoted, hc] at hx
    obtain ⟨hmn, hst⟩ := inside_run_inj (hr hm) (hr hn)
      (stops_cons (by simp) s) (stops_cons (by simp) t) h
    exact ⟨String.toList_injective hmn, (List.cons.inj hst).2⟩
  arrange_map fields := ⟨_, List.perm_insertionSort _ _, rfl⟩

private theorem allNames_true (t : JsonTree) : t.allNames (fun _ => true) = true := by
  induction t using JsonTree.induct with
  | array items ih => exact JsonTree.allNames_array.mpr ih
  | object fields ih => exact JsonTree.allNames_object.mpr fun f hf => ⟨rfl, ih f hf⟩
  | _ => rfl

theorem canonicalJson_injective : Function.Injective canonicalJson := by
  intro a b h
  have hr (v : Value) : Readable (fun _ => true) v.tree := ⟨v.ordered, allNames_true v.tree⟩
  refine Value.tree_injective (renderTree_inj canonicalStyle_laws (hr a) (hr b)
    (fun _ => stops_nil _) (fun _ => stops_nil _) (s := []) (t := []) ?_).1
  rw [List.append_nil, List.append_nil]
  exact h

end Uniqueness

namespace Value

def isNumber (v : Value) : Bool := v.tree.kind == 6

/-- No object inside the value has a field name with a quote. -/
def plainNames (v : Value) : Bool := v.tree.allNames unquoted

end Value

variable {c : Char}

theorem isNumberChar_eq_false_of_headKind (h : headKind c ≤ 5) :
    isNumberChar c = false := by
  unfold headKind at h
  split_ifs at h with h0 h1 h2 h3 h4 h5 h6
  · subst h0; rfl
  · subst h1; rfl
  · subst h2; rfl
  · subst h3; rfl
  · subst h4; rfl
  · subst h5; rfl
  · omega
  · omega

theorem JsonTree.kind_le (t : JsonTree) : t.kind ≤ 6 := by
  cases t with
  | bool b => cases b <;> decide
  | _ => simp [JsonTree.kind]

variable {v : Value}

theorem encodeJsonOrdered_stops (h : v.isNumber = false) :
    Stops (fun c => isNumberChar c = true) (encodeJsonOrdered v) := by
  obtain ⟨c, rest, hc, hk⟩ := renderTree_head orderedStyle v.tree
  have hle := v.tree.kind_le
  have hne : v.tree.kind ≠ 6 := by simpa [Value.isNumber] using h
  rw [encodeJsonOrdered, hc]
  refine stops_cons ?_ rest
  rw [isNumberChar_eq_false_of_headKind (by omega)]
  simp

theorem numberChar_of_mem_encode (h : v.isNumber = true)
    (hc : c ∈ encodeJsonOrdered v) : isNumberChar c = true := by
  obtain ⟨tree, hv⟩ := v
  cases tree with
  | number n => exact Number.text_numberChar hc
  | bool b => cases b <;> cases h
  | _ => cases h

theorem isNumber_eq_of_encode_eq {a b : Value} {s t : List Char}
    (h : encodeJsonOrdered a ++ s = encodeJsonOrdered b ++ t) : a.isNumber = b.isNumber := by
  rw [Value.isNumber, Value.isNumber, kind_eq_of_render_eq h]

variable {k k' v' : Value}

private theorem isNumber_of_run (hk' : k'.isNumber = true)
    (hv' : v'.isNumber = true) (h : encodeKvOrdered k v = encodeKvOrdered k' v') :
    v.isNumber = true := by
  by_contra hv
  have hs := encodeJsonOrdered_stops (v := v) (by simpa using hv)
  obtain ⟨c, rest, hc, -⟩ := renderTree_head orderedStyle v.tree
  have hmem : c ∈ encodeKvOrdered k' v' := by
    rw [← h, encodeKvOrdered, encodeJsonOrdered, encodeJsonOrdered, hc]
    exact List.mem_append_right _ (List.mem_cons_self ..)
  have hn : isNumberChar c = true := by
    rcases List.mem_append.mp hmem with hm | hm
    · exact numberChar_of_mem_encode hk' hm
    · exact numberChar_of_mem_encode hv' hm
  exact hs c (by rw [encodeJsonOrdered, hc]; rfl) hn

theorem encodeKvOrdered_inj (hk : k.plainNames = true)
    (hk' : k'.plainNames = true) (hv : v.plainNames = true) (hv' : v'.plainNames = true)
    (hn : ¬ (k.isNumber = true ∧ k'.isNumber = true ∧ v.isNumber = true ∧ v'.isNumber = true))
    (h : encodeKvOrdered k v = encodeKvOrdered k' v') : k = k' ∧ v = v' := by
  have hkk : k.isNumber = k'.isNumber := isNumber_eq_of_encode_eq h
  -- After a number key neither value can be a number, else both would be.
  have hs : k.tree.kind = 6 → v.isNumber = false ∧ v'.isNumber = false := by
    intro hkind
    have hkn : k.isNumber = true := by simp [Value.isNumber, hkind]
    have hkn' : k'.isNumber = true := hkk ▸ hkn
    constructor
    · by_contra hvn
      rw [Bool.not_eq_false] at hvn
      exact hn ⟨hkn, hkn', hvn, isNumber_of_run hkn hvn h.symm⟩
    · by_contra hvn
      rw [Bool.not_eq_false] at hvn
      exact hn ⟨hkn, hkn', isNumber_of_run hkn' hvn h, hvn⟩
  obtain ⟨hkeys, hr⟩ := renderTree_inj orderedStyle_laws ⟨k.ordered, hk⟩ ⟨k'.ordered, hk'⟩
    (fun hkind => encodeJsonOrdered_stops (hs hkind).1)
    (fun hkind => encodeJsonOrdered_stops (hs hkind).2) h
  have hvals := renderTree_inj orderedStyle_laws ⟨v.ordered, hv⟩ ⟨v'.ordered, hv'⟩
    (s := []) (t := []) (fun _ => stops_nil _) (fun _ => stops_nil _)
    (by rw [List.append_nil, List.append_nil]; exact hr)
  exact ⟨Value.tree_injective hkeys, Value.tree_injective hvals.1⟩

end Velorix.Json
