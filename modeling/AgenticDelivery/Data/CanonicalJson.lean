import AgenticDelivery.Data.Json

/-! # Canonical JSON determines its value

What is written can be read in one way: an escaped character says where it ends, a
string ends at the first quote that is not escaped, and every other value where its own
bracket closes. So two values are written alike only if they are the same up to the
order of their fields. -/
namespace AgenticDelivery.Data.Json

/-! ## Characters -/

def unhex (c : Char) : Nat := Sha256.hexDigits.idxOf c

def unhex4 (a b c d : Char) : Nat := ((unhex a * 16 + unhex b) * 16 + unhex c) * 16 + unhex d

/-- The character of a short escape. -/
def unescape (c : Char) : Char :=
  if c = 'n' then '\n'
  else if c = 'r' then '\r'
  else if c = 't' then '\t'
  else if c = 'f' then Char.ofNat 0x0c
  else if c = 'b' then Char.ofNat 0x08
  else c

/-- Read one escaped character. A quote ends the string. -/
def readChar : List Char → Option (Char × List Char)
  | '\\' :: 'u' :: a :: b :: c :: d :: rest =>
    let n := unhex4 a b c d
    if 0xd800 ≤ n ∧ n < 0xdc00 then
      match rest with
      | '\\' :: 'u' :: a :: b :: c :: d :: rest =>
        some (Char.ofNat (0x10000 + (n - 0xd800) * 1024 + (unhex4 a b c d - 0xdc00)), rest)
      | _ => none
    else some (Char.ofNat n, rest)
  | '\\' :: c :: rest => some (unescape c, rest)
  | '"' :: _ => none
  | c :: rest => some (c, rest)
  | [] => none

/-- The four digits of a code unit are read back. -/
theorem unhex4_hex4 {n : Nat} (h : n < 0x10000) : ∃ a b c d, hex4 n = [a, b, c, d] ∧
    unhex4 a b c d = n := by
  have digit : ∀ k < 16, unhex (Sha256.hexDigits.getD k '0') = k := by decide
  refine ⟨_, _, _, _, rfl, ?_⟩
  unfold unhex4
  rw [digit _ (Nat.mod_lt _ (by decide)), digit _ (Nat.mod_lt _ (by decide)),
    digit _ (Nat.mod_lt _ (by decide)), digit _ (Nat.mod_lt _ (by decide))]
  simp only [Nat.shiftRight_eq_div_pow]
  omega

theorem readChar_unicodeEscape {n : Nat} (h : n < 0x10000) (hout : n < 0xd800 ∨ 0xdc00 ≤ n)
    (t : List Char) : readChar (unicodeEscape n ++ t) = some (Char.ofNat n, t) := by
  obtain ⟨a, b, c, d, hhex, hn⟩ := unhex4_hex4 h
  have hcode : ¬(0xd800 ≤ n ∧ n < 0xdc00) := by omega
  simp only [unicodeEscape, hhex, List.cons_append, List.nil_append, readChar, hn, if_neg hcode]

/-- A leading surrogate is read with the one behind it. -/
theorem readChar_surrogates {n : Nat} (h : n < 0x100000) (t : List Char) :
    readChar (unicodeEscape (0xd800 ||| ((n >>> 10) &&& 0x3ff)) ++
      (unicodeEscape (0xdc00 ||| (n &&& 0x3ff)) ++ t)) = some (Char.ofNat (0x10000 + n), t) := by
  have hhigh : 0xd800 ||| ((n >>> 10) &&& 0x3ff) = 0xd800 + n / 1024 % 1024 := by
    have hmask : (n >>> 10) &&& 0x3ff = n / 1024 % 1024 := by
      rw [Nat.shiftRight_eq_div_pow]
      exact Nat.and_two_pow_sub_one_eq_mod (n / 2 ^ 10) 10
    have hlt : n / 1024 % 1024 < 2 ^ 10 := Nat.mod_lt _ (by decide)
    rw [hmask]
    exact (Nat.shiftLeft_add_eq_or_of_lt hlt 54).symm
  have hlow : 0xdc00 ||| (n &&& 0x3ff) = 0xdc00 + n % 1024 := by
    have hmask : n &&& 0x3ff = n % 1024 := Nat.and_two_pow_sub_one_eq_mod n 10
    have hlt : n % 1024 < 2 ^ 10 := Nat.mod_lt _ (by decide)
    rw [hmask]
    exact (Nat.shiftLeft_add_eq_or_of_lt hlt 55).symm
  rw [hhigh, hlow]
  have hmod := Nat.mod_lt (n / 1024) (show 0 < 1024 by decide)
  have hmod' := Nat.mod_lt n (show 0 < 1024 by decide)
  obtain ⟨a, b, c, d, hhex, hn⟩ := @unhex4_hex4 (0xd800 + n / 1024 % 1024) (by omega)
  obtain ⟨a', b', c', d', hhex', hn'⟩ := @unhex4_hex4 (0xdc00 + n % 1024) (by omega)
  have hcode : 0xd800 ≤ 0xd800 + n / 1024 % 1024 ∧ 0xd800 + n / 1024 % 1024 < 0xdc00 := by omega
  have hsum : 0x10000 + (0xd800 + n / 1024 % 1024 - 0xd800) * 1024 +
      (0xdc00 + n % 1024 - 0xdc00) = 0x10000 + n := by omega
  simp only [unicodeEscape, hhex, hhex', List.cons_append, List.nil_append, readChar, hn, hn',
    if_pos hcode, hsum]

theorem readChar_plain {c : Char} (h : c ≠ '\\') (h' : c ≠ '"') (t : List Char) :
    readChar (c :: t) = some (c, t) := by
  unfold readChar
  split
  · exact absurd (List.cons.inj (by assumption)).1 h
  · exact absurd (List.cons.inj (by assumption)).1 h
  · exact absurd (List.cons.inj (by assumption)).1 h'
  · rename_i heq
    obtain ⟨rfl, rfl⟩ := List.cons.inj heq
    rfl
  · rename_i heq
    cases heq

/-- **An escaped character is read back.** -/
theorem readChar_escapeChar (c : Char) (t : List Char) :
    readChar (escapeChar c ++ t) = some (c, t) := by
  have code {n : Nat} (h : c.toNat = n) : c = Char.ofNat n := by rw [← h, Char.ofNat_toNat]
  unfold escapeChar
  split_ifs with hquote hback hn hr ht hf hb hplain hbasic
  · rw [hquote]
    rfl
  · rw [hback]
    rfl
  · rw [hn]
    rfl
  · rw [hr]
    rfl
  · rw [ht]
    rfl
  · rw [code hf]
    rfl
  · rw [code hb]
    rfl
  · exact readChar_plain hback hquote t
  · have hvalid : c.toNat < 0xd800 ∨ 0xdfff < c.toNat ∧ c.toNat < 0x110000 := c.valid
    rw [readChar_unicodeEscape hbasic (by omega), Char.ofNat_toNat]
  · have hvalid : c.toNat < 0xd800 ∨ 0xdfff < c.toNat ∧ c.toNat < 0x110000 := c.valid
    rw [List.append_assoc, readChar_surrogates (by omega), Nat.add_sub_cancel' (by omega),
      Char.ofNat_toNat]

/-! ## Strings -/

/-- A string ends at the first quote that is not escaped. -/
theorem escaped_inj {s s' t t' : List Char}
    (h : s.flatMap escapeChar ++ '"' :: t = s'.flatMap escapeChar ++ '"' :: t') :
    s = s' ∧ t = t' := by
  induction s generalizing s' with
  | nil =>
    cases s' with
    | nil => exact ⟨rfl, (List.cons.inj h).2⟩
    | cons d s' =>
      have hread := congrArg readChar h
      rw [List.flatMap_cons, List.append_assoc, readChar_escapeChar] at hread
      cases hread
  | cons c s ih =>
    have hread := congrArg readChar h
    rw [List.flatMap_cons, List.append_assoc, readChar_escapeChar] at hread
    cases s' with
    | nil => cases hread
    | cons d s' =>
      rw [List.flatMap_cons, List.append_assoc, readChar_escapeChar, Option.some.injEq,
        Prod.mk.injEq] at hread
      obtain ⟨rfl, hrest⟩ := hread
      obtain ⟨rfl, rfl⟩ := ih hrest
      exact ⟨rfl, rfl⟩

theorem quote_inj {s s' : String} {t t' : List Char} (h : quote s ++ t = quote s' ++ t') :
    s = s' ∧ t = t' := by
  simp only [quote, List.cons_append, List.append_assoc, List.nil_append, List.cons.injEq,
    true_and] at h
  obtain ⟨hs, ht⟩ := escaped_inj h
  exact ⟨String.toList_inj.mp hs, ht⟩

/-! ## Values in the order of their fields -/

mutual
/-- What is written without sorting. -/
def write : Json → List Char
  | .str s => quote s
  | .bool true => "true".toList
  | .bool false => "false".toList
  | .arr items => '[' :: join (writeItems items) ++ [']']
  | .obj fields => '\x7b' :: join (writeFields fields) ++ ['\x7d']
def writeItems : List Json → List (List Char)
  | [] => []
  | item :: rest => write item :: writeItems rest
def writeFields : List (String × Json) → List (List Char)
  | [] => []
  | (key, value) :: rest => (quote key ++ ':' :: write value) :: writeFields rest
end

mutual
/-- The value with the fields of every object in the order of their keys. -/
def sortKeys : Json → Json
  | .str s => .str s
  | .bool b => .bool b
  | .arr items => .arr (sortItems items)
  | .obj fields => .obj ((sortFields fields).insertionSort fun x y => x.1 ≤ y.1)
def sortItems : List Json → List Json
  | [] => []
  | item :: rest => sortKeys item :: sortItems rest
def sortFields : List (String × Json) → List (String × Json)
  | [] => []
  | (key, value) :: rest => (key, sortKeys value) :: sortFields rest
end

theorem writeItems_eq_map (items : List Json) : writeItems items = items.map write := by
  induction items with
  | nil => rfl
  | cons item items ih => rw [writeItems, ih, List.map_cons]

theorem writeFields_eq_map (fields : List (String × Json)) :
    writeFields fields = fields.map fun x => quote x.1 ++ ':' :: write x.2 := by
  induction fields with
  | nil => rfl
  | cons field fields ih => rw [writeFields, ih, List.map_cons]

/-- Sorting by key commutes with writing the values. -/
theorem map_sort (fields : List (String × Json)) :
    (fields.map fun x => (x.1, write x.2)).insertionSort (fun x y => x.1 ≤ y.1) =
      (fields.insertionSort fun x y => x.1 ≤ y.1).map fun x => (x.1, write x.2) := by
  refine (List.map_insertionSort (fun x y : String × Json => x.1 ≤ y.1)
    (fun x y : String × List Char => x.1 ≤ y.1) _ _ ?_).symm
  intro x _ y _
  rfl

mutual
/-- What is dumped is the sorted value. -/
theorem dump_eq_write : ∀ value : Json, dump value = write (sortKeys value)
  | .str s => rfl
  | .bool true => rfl
  | .bool false => rfl
  | .arr items => by rw [dump, sortKeys, write, dumpItems_eq_write items]
  | .obj fields => by
    rw [dump, sortKeys, write, dumpFields_eq_map fields, map_sort, writeFields_eq_map, List.map_map]
    rfl
theorem dumpItems_eq_write : ∀ items : List Json, dumpItems items = writeItems (sortItems items)
  | [] => rfl
  | item :: rest => by
    rw [dumpItems, sortItems, writeItems, dump_eq_write item, dumpItems_eq_write rest]
theorem dumpFields_eq_map : ∀ fields : List (String × Json),
    dumpFields fields = (sortFields fields).map fun x => (x.1, write x.2)
  | [] => rfl
  | (key, value) :: rest => by
    rw [dumpFields, sortFields, List.map_cons, dump_eq_write value, dumpFields_eq_map rest]
end

/-! ## Reading a value back -/

/-- Induction on a value, with the hypothesis for every item and every field. -/
@[elab_as_elim]
theorem induction {motive : Json → Prop} (str : ∀ s, motive (.str s))
    (bool : ∀ b, motive (.bool b))
    (arr : ∀ items, (∀ x ∈ items, motive x) → motive (.arr items))
    (obj : ∀ fields, (∀ x ∈ fields, motive x.2) → motive (.obj fields)) (value : Json) :
    motive value :=
  @Json.rec motive (fun items => ∀ x ∈ items, motive x) (fun fields => ∀ x ∈ fields, motive x.2)
    (fun x => motive x.2) str bool arr obj
    (List.forall_mem_nil _) (fun _ _ item rest => List.forall_mem_cons.mpr ⟨item, rest⟩)
    (List.forall_mem_nil _) (fun _ _ field rest => List.forall_mem_cons.mpr ⟨field, rest⟩)
    (fun _ _ value => value) value

theorem join_cons (item : List Char) (rest : List (List Char)) :
    join (item :: rest) = item ++ rest.flatMap fun x => ',' :: x := by
  induction rest generalizing item with
  | nil => exact (List.append_nil item).symm
  | cons next rest ih =>
    rw [join, ih, List.flatMap_cons, List.cons_append]
    exact List.cons_ne_nil _ _

section
variable {α : Type} {f : α → List Char} {close : Char} {t t' : List Char}

/-- What follows an item ends at the closing bracket. -/
theorem rest_inj (hclose : close ≠ ',') {xs ys : List α}
    (hf : ∀ x ∈ xs, ∀ y t t', f x ++ t = f y ++ t' → x = y ∧ t = t')
    (h : (xs.map f).flatMap (fun x => ',' :: x) ++ close :: t =
      (ys.map f).flatMap (fun x => ',' :: x) ++ close :: t') : xs = ys ∧ t = t' := by
  induction xs generalizing ys with
  | nil =>
    cases ys with
    | nil => exact ⟨rfl, (List.cons.inj h).2⟩
    | cons y ys => exact absurd (List.cons.inj h).1 hclose
  | cons x xs ih =>
    cases ys with
    | nil => exact absurd (List.cons.inj h).1.symm hclose
    | cons y ys =>
      obtain ⟨hx, hxs⟩ := List.forall_mem_cons.mp hf
      simp only [List.map_cons, List.flatMap_cons, List.cons_append, List.append_assoc,
        List.cons.injEq, true_and] at h
      obtain ⟨rfl, hrest⟩ := hx y _ _ h
      obtain ⟨rfl, ht⟩ := ih hxs hrest
      exact ⟨rfl, ht⟩

/-- **Joined items are read back**, when each is and none starts with the closing
bracket. -/
theorem join_inj (hclose : close ≠ ',') (hhead : ∀ x, ∃ c ≠ close, (f x).head? = some c)
    {xs ys : List α} (hf : ∀ x ∈ xs, ∀ y t t', f x ++ t = f y ++ t' → x = y ∧ t = t')
    (h : join (xs.map f) ++ close :: t = join (ys.map f) ++ close :: t') : xs = ys ∧ t = t' := by
  have hstart (x : α) (l : List Char) : (f x ++ l).head? ≠ some close := by
    obtain ⟨c, hc, hx⟩ := hhead x
    rw [List.head?_append, hx]
    exact fun heq => hc (Option.some.inj heq)
  cases xs with
  | nil =>
    cases ys with
    | nil => exact ⟨rfl, (List.cons.inj h).2⟩
    | cons y ys =>
      rw [List.map_cons, join_cons, List.append_assoc] at h
      exact absurd (congrArg List.head? h).symm (hstart y _)
  | cons x xs =>
    cases ys with
    | nil =>
      rw [List.map_cons, join_cons, List.append_assoc] at h
      exact absurd (congrArg List.head? h) (hstart x _)
    | cons y ys =>
      obtain ⟨hx, hxs⟩ := List.forall_mem_cons.mp hf
      rw [List.map_cons, List.map_cons, join_cons, join_cons, List.append_assoc,
        List.append_assoc] at h
      obtain ⟨rfl, hrest⟩ := hx y _ _ h
      obtain ⟨rfl, ht⟩ := rest_inj hclose hxs hrest
      exact ⟨rfl, ht⟩

end

/-- The character a value opens with. -/
def opening : Json → Char
  | .str _ => '"'
  | .bool true => 't'
  | .bool false => 'f'
  | .arr _ => '['
  | .obj _ => '\x7b'

theorem head?_write (value : Json) : (write value).head? = some value.opening := by
  cases value with
  | bool b => cases b <;> rfl
  | _ => rfl

theorem opening_ne (value : Json) : value.opening ≠ ']' := by
  cases value with
  | bool b => cases b <;> decide
  | _ => simp [opening]

theorem opening_eq {v w : Json} {t t' : List Char} (h : write v ++ t = write w ++ t') :
    v.opening = w.opening := by
  have hhead := congrArg List.head? h
  rw [List.head?_append, List.head?_append, head?_write, head?_write] at hhead
  exact Option.some.inj hhead

theorem field_inj {x y : String × Json} {t t' : List Char}
    (hvalue : ∀ {w t t'}, write x.2 ++ t = write w ++ t' → x.2 = w ∧ t = t')
    (h : (quote x.1 ++ ':' :: write x.2) ++ t = (quote y.1 ++ ':' :: write y.2) ++ t') :
    x = y ∧ t = t' := by
  simp only [List.append_assoc, List.cons_append] at h
  obtain ⟨hkey, hrest⟩ := quote_inj h
  obtain ⟨heq, ht⟩ := hvalue (List.cons.inj hrest).2
  exact ⟨Prod.ext hkey heq, ht⟩

/-- **A value ends where it closes**, and what is written of it determines it. -/
theorem write_inj {v w : Json} {t t' : List Char} (h : write v ++ t = write w ++ t') :
    v = w ∧ t = t' := by
  induction v using induction generalizing w t t' with
  | str s =>
    have hopen := opening_eq h
    cases w with
    | str s' =>
      obtain ⟨rfl, ht⟩ := quote_inj h
      exact ⟨rfl, ht⟩
    | bool b => cases b <;> cases hopen
    | _ => cases hopen
  | bool b =>
    have hopen := opening_eq h
    cases w with
    | bool b' =>
      have hb : b = b' := by cases b <;> cases b' <;> first | rfl | cases hopen
      subst hb
      exact ⟨rfl, List.append_cancel_left h⟩
    | _ => cases b <;> cases hopen
  | arr items ih =>
    have hopen := opening_eq h
    cases w with
    | arr items' =>
      simp only [write, writeItems_eq_map, List.cons_append, List.append_assoc, List.nil_append,
        List.cons.injEq, true_and] at h
      obtain ⟨rfl, ht⟩ := join_inj (by decide) (fun x => ⟨_, opening_ne x, head?_write x⟩)
        (fun x hx _ _ _ => ih x hx) h
      exact ⟨rfl, ht⟩
    | bool b => cases b <;> cases hopen
    | _ => cases hopen
  | obj fields ih =>
    have hopen := opening_eq h
    cases w with
    | obj fields' =>
      simp only [write, writeFields_eq_map, List.cons_append, List.append_assoc, List.nil_append,
        List.cons.injEq, true_and] at h
      -- every field starts with the quote of its key
      obtain ⟨rfl, ht⟩ := join_inj (by decide) (fun _ => ⟨'"', by decide, rfl⟩)
        (fun x hx _ _ _ => field_inj (ih x hx)) h
      exact ⟨rfl, ht⟩
    | bool b => cases b <;> cases hopen
    | _ => cases hopen

/-- **Two values have one canonical form exactly when they are the same up to the order of
their fields.** -/
theorem dumps_inj {v w : Json} : v.dumps = w.dumps ↔ v.sortKeys = w.sortKeys := by
  constructor
  · intro h
    have hwrite : write v.sortKeys ++ [] = write w.sortKeys ++ [] := by
      rw [← dump_eq_write, ← dump_eq_write, String.ofList_injective h]
    exact (write_inj hwrite).1
  · intro h
    unfold dumps
    rw [dump_eq_write, dump_eq_write, h]

end AgenticDelivery.Data.Json
