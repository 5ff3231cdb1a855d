import TapeLang.Json.Read
import TapeLang.Proofs.Json.Tokens

/-!
# Values from their tokens

The tokens of a value put the value together again if its containers are not nested too deep.

* `Json.depth`: how deep the containers of a value are nested.
* `Json.Restores`: what becomes of the tokens of a value inside some containers.
* **`restores`**: the tokens of a value restore it, or are refused for its depth.
* **`read?_compact`**: the text of a value is read back as the value.
-/

namespace TapeLang.Json

open Token

mutual

/-- How deep the containers of a value are nested. -/
def depth : Json → Nat
  | .array items => depthItems items + 1
  | .object fields => depthFields fields + 1
  | _ => 0

/-- The greatest depth of array items. -/
def depthItems : List Json → Nat
  | [] => 0
  | v :: rest => max (depth v) (depthItems rest)

/-- The greatest depth of the values of fields. -/
def depthFields : List (String × Json) → Nat
  | [] => 0
  | (_, v) :: rest => max (depth v) (depthFields rest)

end

/-- How the reading goes on with other tokens. -/
def Progress.resume (rest : List Token) : Progress → Option (Json × List Token)
  | .more r => readFrom r rest
  | .done v => some (v, rest)
  | .malformed => none

theorem readFrom_cons (r : Reading) (t : Token) (rest : List Token) :
    readFrom r (t :: rest) = (step r t).resume rest := by
  rw [readFrom]
  cases step r t <;> rfl

/-- The tokens of a value, inside some containers, are read as the value if that is not too
deep. -/
def Restores (v : Json) : Prop :=
  ∀ stack rest, stack.length ≤ maxDepth → readFrom (.value stack) (tokens v ++ rest) =
    if v.depth + stack.length ≤ maxDepth then (finish v stack).resume rest else none

/-! ## Arrays -/

theorem readFrom_firstItem (v : Json) (items : List Json) (stack : List Frame)
    (rest : List Token) :
    readFrom (.firstItem stack) (itemTokens (v :: items) ++ rest) =
      readFrom (.value (.array [] :: stack)) (itemTokens (v :: items) ++ rest) := by
  obtain ⟨more, hmore⟩ : ∃ more, itemTokens (v :: items) = tokens v ++ more := by
    cases items with
    | nil => exact ⟨[], by simp [itemTokens]⟩
    | cons w items => exact ⟨_, rfl⟩
  rw [hmore]
  cases v <;> simp [tokens, readFrom_cons, step]

theorem resume_array_comma (v : Json) (before : List Json) (stack : List Frame)
    (rest : List Token) :
    (finish v (.array before :: stack)).resume (.comma :: rest) =
      readFrom (.value (.array (v :: before) :: stack)) rest := by
  rw [finish, Progress.resume, readFrom_cons]
  rfl

theorem resume_array_end (v : Json) (before : List Json) (stack : List Frame)
    (rest : List Token) :
    (finish v (.array before :: stack)).resume (.endArray :: rest) =
      (finish (.array (before.reverse ++ [v])) stack).resume rest := by
  rw [finish, Progress.resume, readFrom_cons, ← List.reverse_cons]
  rfl

theorem readFrom_items {items : List Json} (h : ∀ v ∈ items, Restores v) (hne : items ≠ [])
    (before : List Json) {stack : List Frame} (room : stack.length < maxDepth)
    (rest : List Token) :
    readFrom (.value (.array before :: stack)) (itemTokens items ++ .endArray :: rest) =
      if depthItems items + 1 + stack.length ≤ maxDepth then
        (finish (.array (before.reverse ++ items)) stack).resume rest
      else none := by
  induction items generalizing before with
  | nil => exact absurd rfl hne
  | cons v items ih =>
    rw [List.forall_mem_cons] at h
    cases items with
    | nil =>
      rw [itemTokens, h.1 (_ :: stack) _ room, resume_array_end]
      simp only [depthItems, List.length_cons]
      congr 1
      simp
      omega
    | cons w items =>
      have hmax : depthItems (v :: w :: items) = max v.depth (depthItems (w :: items)) := rfl
      rw [itemTokens, List.append_assoc, List.cons_append, h.1 (_ :: stack) _ room,
        resume_array_comma, ih h.2 (by simp), hmax, List.length_cons, List.reverse_cons,
        List.append_assoc]
      -- Too deep means that the first item is, or that one of the others is.
      by_cases hv : v.depth + (stack.length + 1) ≤ maxDepth
      · rw [if_pos hv]
        congr 1
        simp
        omega
      · rw [if_neg hv, if_neg (by omega)]

theorem restores_array {items : List Json} (h : ∀ v ∈ items, Restores v) :
    Restores (.array items) := by
  intro stack rest _
  rw [tokens, List.cons_append, List.append_assoc, readFrom_cons, step, stepValue, enter, depth]
  -- A container is refused when it is opened, before anything in it is read.
  by_cases room : stack.length < maxDepth
  · rw [if_pos room, Progress.resume]
    cases items with
    | nil =>
      rw [if_pos (by simp [depthItems]; omega)]
      rfl
    | cons v items =>
      rw [List.singleton_append, readFrom_firstItem, readFrom_items h (by simp) [] room]
      rfl
  · rw [if_neg room, if_neg (by omega)]
    rfl

/-! ## Objects -/

theorem resume_object_comma (v : Json) (before : List (String × Json)) (key : String)
    (stack : List Frame) (rest : List Token) :
    (finish v (.object before key :: stack)).resume (.comma :: rest) =
      readFrom (.key ((key, v) :: before) stack) rest := by
  rw [finish, Progress.resume, readFrom_cons]
  rfl

theorem resume_object_end (v : Json) (before : List (String × Json)) (key : String)
    (stack : List Frame) (rest : List Token) :
    (finish v (.object before key :: stack)).resume (.endObject :: rest) =
      (finish (.object (before.reverse ++ [(key, v)])) stack).resume rest := by
  rw [finish, Progress.resume, readFrom_cons, ← List.reverse_cons]
  rfl

theorem readFrom_key (before : List (String × Json)) (key : String) (stack : List Frame)
    (rest : List Token) :
    readFrom (.key before stack) (.string key :: .colon :: rest) =
      readFrom (.value (.object before key :: stack)) rest := by
  rw [readFrom_cons, step, Progress.resume, readFrom_cons]
  rfl

theorem readFrom_fields {fields : List (String × Json)} (h : ∀ f ∈ fields, Restores f.2)
    (hne : fields ≠ []) (before : List (String × Json)) {stack : List Frame}
    (room : stack.length < maxDepth) (rest : List Token) :
    readFrom (.key before stack) (fieldTokens fields ++ .endObject :: rest) =
      if depthFields fields + 1 + stack.length ≤ maxDepth then
        (finish (.object (before.reverse ++ fields)) stack).resume rest
      else none := by
  induction fields generalizing before with
  | nil => exact absurd rfl hne
  | cons f fields ih =>
    rcases f with ⟨key, v⟩
    rw [List.forall_mem_cons] at h
    cases fields with
    | nil =>
      rw [fieldTokens, List.cons_append, List.cons_append, readFrom_key, h.1 (_ :: stack) _ room,
        resume_object_end]
      simp only [depthFields, List.length_cons]
      congr 1
      simp
      omega
    | cons g fields =>
      have hmax : depthFields ((key, v) :: g :: fields) = max v.depth (depthFields (g :: fields)) :=
        rfl
      rw [fieldTokens, List.cons_append, List.cons_append, readFrom_key, List.append_assoc,
        List.cons_append, h.1 (_ :: stack) _ room, resume_object_comma, ih h.2 (by simp), hmax,
        List.length_cons, List.reverse_cons, List.append_assoc]
      by_cases hv : v.depth + (stack.length + 1) ≤ maxDepth
      · rw [if_pos hv]
        congr 1
        simp
        omega
      · rw [if_neg hv, if_neg (by omega)]

theorem readFrom_firstKey (f : String × Json) (fields : List (String × Json))
    (stack : List Frame) (rest : List Token) :
    readFrom (.firstKey stack) (fieldTokens (f :: fields) ++ rest) =
      readFrom (.key [] stack) (fieldTokens (f :: fields) ++ rest) := by
  cases fields <;> simp [fieldTokens, readFrom_cons, step]

theorem restores_object {fields : List (String × Json)} (h : ∀ f ∈ fields, Restores f.2) :
    Restores (.object fields) := by
  intro stack rest _
  rw [tokens, List.cons_append, List.append_assoc, readFrom_cons, step, stepValue, enter, depth]
  by_cases room : stack.length < maxDepth
  · rw [if_pos room, Progress.resume]
    cases fields with
    | nil =>
      rw [if_pos (by simp [depthFields]; omega)]
      rfl
    | cons f fields =>
      rw [List.singleton_append, readFrom_firstKey, readFrom_fields h (by simp) [] room]
      rfl
  · rw [if_neg room, if_neg (by omega)]
    rfl

/-! ## All values -/

theorem restores_token {v : Json} {t : Token} (htokens : tokens v = [t]) (hdepth : v.depth = 0)
    (hstep : ∀ stack, stepValue stack t = finish v stack) : Restores v := by
  intro stack rest hle
  rw [htokens, List.singleton_append, readFrom_cons, step, hstep, if_pos (by omega)]

mutual

/-- **The tokens of a value restore it**, or are refused for its depth. -/
theorem restores : ∀ v : Json, Restores v
  | .null => restores_token rfl rfl fun _ => rfl
  | .bool _ => restores_token rfl rfl fun _ => rfl
  | .number _ => restores_token rfl rfl fun _ => rfl
  | .string _ => restores_token rfl rfl fun _ => rfl
  | .array items => restores_array (restores_items items)
  | .object fields => restores_object (restores_fields fields)

theorem restores_items : ∀ items : List Json, ∀ v ∈ items, Restores v
  | [] => by simp
  | v :: items => List.forall_mem_cons.mpr ⟨restores v, restores_items items⟩

theorem restores_fields : ∀ fields : List (String × Json), ∀ f ∈ fields, Restores f.2
  | [] => by simp
  | (_, v) :: fields => List.forall_mem_cons.mpr ⟨restores v, restores_fields fields⟩

end

/-- **The text of a value is read back as the value**, if its numbers are integers and its
containers are not nested too deep. Otherwise nothing is read. -/
theorem read?_compact {v : Json} (h : Integral v) :
    read? v.compact = if v.depth ≤ maxDepth then some v else none := by
  have hscan := scan_compact h [] (by simp [Delimited])
  have hend : scan [] = [] := by
    rw [scan, scan.go]
    rfl
  rw [List.append_nil, hend] at hscan
  rw [read?, readNext?, hscan, restores v [] [] (Nat.zero_le _), List.length_nil, Nat.add_zero]
  by_cases hdepth : v.depth ≤ maxDepth
  · rw [if_pos hdepth, if_pos hdepth]
    rfl
  · rw [if_neg hdepth, if_neg hdepth]

end TapeLang.Json
