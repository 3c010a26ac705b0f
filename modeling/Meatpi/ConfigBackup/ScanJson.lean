import Mathlib.Data.List.TakeWhile
import Meatpi.ConfigBackup.Scan
import Meatpi.Library.JsonShape

/-!
# The scanner and the grammar (`config_backup_core.c`)

The scanner reads the shape of a JSON text. So it finds the members of every object
(`cbMembers_of_objectText`), and a text passes for a value when it is one token with
blanks around it (`cbJsonValid_iff`). Not every token is a value, so that what passes
need not be JSON: `scanner_agrees` says which texts those are.
-/

namespace Meatpi

open JsonGrammar Bool List

variable {ms : List (List UInt8 × List UInt8)} {v v' : List UInt8} {s w w' : List UInt8} {b : UInt8}

/-! ## Blanks -/

theorem endsWord_iff : endsWord b = true ↔ EndsWord b := by
  simp only [endsWord, EndsWord, IsClosing, or_eq_true, beq_iff_eq, isWsByte_iff]
  exact (or_congr_left or_assoc).trans or_assoc

theorem skipWs_blanks (hw : IsWs w) (text : List UInt8) : skipWs (w ++ text) = skipWs text :=
  dropWhile_append_of_pos fun b hb => isWsByte_iff.mpr (hw b hb)

theorem skipWs_solid (hb : ¬ (b = 0x20 ∨ b = 0x09 ∨ b = 0x0A ∨ b = 0x0D)) (text : List UInt8) :
    skipWs (b :: text) = b :: text :=
  dropWhile_cons_of_neg fun h => hb (isWsByte_iff.mp h)

theorem skipWs_eq_nil_iff {text : List UInt8} : skipWs text = [] ↔ IsWs text := by
  rw [skipWs, dropWhile_eq_nil_iff]
  exact ⟨fun h b hb => isWsByte_iff.mp (h b hb), fun h b hb => isWsByte_iff.mpr (h b hb)⟩

theorem skipWs_split (text : List UInt8) : ∃ w, IsWs w ∧ text = w ++ skipWs text :=
  ⟨text.takeWhile isWsByte, fun _ hb => isWsByte_iff.mp (mem_takeWhile_imp hb),
    (takeWhile_append_dropWhile).symm⟩

/-! ## Strings and brackets -/

theorem scanString_body {body : List UInt8} (h : IsBody body) (rest : List UInt8) :
    scanString (body ++ 0x22 :: rest) = some rest := by
  induction h with
  | nil => simp [scanString.eq_def]
  | plain hq hb _ ih =>
    rw [scanString.eq_def]
    simp only [cons_append, hb, hq, if_false, ih]
  | escape _ ih =>
    rw [scanString.eq_def]
    simp only [cons_append, if_true, ih]

theorem scanString_inv {text rest : List UInt8} (h : scanString text = some rest) :
    ∃ body, IsBody body ∧ text = body ++ 0x22 :: rest := by
  fun_induction scanString text with
  | case1 => cases h
  | case2 => cases h
  | case3 d text ih =>
    obtain ⟨body, hbody, rfl⟩ := ih h
    exact ⟨0x5C :: d :: body, .escape hbody, rfl⟩
  | case4 text hb =>
    cases h
    exact ⟨[], .nil, rfl⟩
  | case5 c text hb hq ih =>
    obtain ⟨body, hbody, rfl⟩ := ih h
    exact ⟨c :: body, .plain hq hb hbody, rfl⟩

section Nested

variable {d : ℕ} {c : UInt8} {text rest : List UInt8}

theorem scanNested_quote (h : scanString text = some rest) :
    scanNested d (0x22 :: text) = scanNested d rest := by
  rw [scanNested, if_pos rfl]
  split
  · next hnone =>
    rw [h] at hnone
    cases hnone
  · next hsome =>
    rw [h] at hsome
    cases hsome
    rfl

theorem scanNested_opening (h : IsOpening c) :
    scanNested d (c :: text) = scanNested (d + 1) text := by
  rcases h with rfl | rfl
  · rw [scanNested, if_neg (by decide), if_pos (by decide)]
  · rw [scanNested, if_neg (by decide), if_pos (by decide)]

theorem scanNested_closing (h : IsClosing c) :
    scanNested d (c :: text) = if d - 1 = 0 then some text else scanNested (d - 1) text := by
  rcases h with rfl | rfl
  · rw [scanNested, if_neg (by decide), if_neg (by decide), if_pos (by decide)]
  · rw [scanNested, if_neg (by decide), if_neg (by decide), if_pos (by decide)]

theorem scanNested_inert (h : IsInert c) : scanNested d (c :: text) = scanNested d text := by
  obtain ⟨⟨hq, ho, hc⟩, ho', hc'⟩ := h
  rw [scanNested, if_neg hq, if_neg (not_or.mpr ⟨ho, ho'⟩), if_neg (not_or.mpr ⟨hc, hc'⟩)]

end Nested

theorem scanNested_nest (h : IsNest s) (rest : List UInt8) :
    ∀ d : ℕ, 0 < d → scanNested d (s ++ rest) = scanNested d rest := by
  induction h generalizing rest with
  | nil => exact fun _ _ => rfl
  | inert hb _ ih =>
    intro d hd
    rw [cons_append, scanNested_inert hb, ih rest d hd]
  | quoted hbody _ ih =>
    intro d hd
    rw [cons_append, append_assoc, cons_append,
      scanNested_quote (scanString_body hbody _), ih rest d hd]
  | nested ho _ hc _ ih ih' =>
    intro d hd
    have hdepth : ¬ d + 1 - 1 = 0 := by omega
    rw [cons_append, append_assoc, cons_append, scanNested_opening ho,
      ih _ (d + 1) (Nat.succ_pos d), scanNested_closing hc, if_neg hdepth, Nat.add_sub_cancel,
      ih' rest d hd]

theorem scanNested_bracketed (h : IsBracketed s) (rest : List UInt8) :
    scanNested 0 (s ++ rest) = some rest := by
  obtain ⟨o, inner, c, ho, hinner, hc, rfl⟩ := h
  rw [cons_append, append_assoc, singleton_append, scanNested_opening ho,
    scanNested_nest hinner _ 1 Nat.one_pos, scanNested_closing hc]
  rfl

/-- A text that closes so many brackets more than it opens, the last with its last
byte. -/
inductive Closes : ℕ → List UInt8 → Prop
  | nil : Closes 0 []
  | close {d : ℕ} {n s : List UInt8} {c : UInt8} : IsNest n → IsClosing c → Closes d s →
      Closes (d + 1) (n ++ c :: s)

theorem Closes.append {d : ℕ} {n : List UInt8} (hn : IsNest n) (h : Closes d s) (hd : 0 < d) :
    Closes d (n ++ s) := by
  cases h with
  | nil => exact absurd hd (lt_irrefl 0)
  | close hm hc hs =>
    rw [← append_assoc]
    exact .close (hn.append hm) hc hs

/-- **What the loop goes over.** -/
theorem scanNested_inv {d : ℕ} {text rest : List UInt8} (hd : 0 < d)
    (h : scanNested d text = some rest) : ∃ s, Closes d s ∧ text = s ++ rest := by
  fun_induction scanNested d text with
  | case1 => cases h
  | case2 => cases h
  | case3 d text' text'' hscan ih =>
    obtain ⟨s, hs, rfl⟩ := ih hd h
    obtain ⟨body, hbody, rfl⟩ := scanString_inv hscan
    refine ⟨0x22 :: (body ++ [0x22]) ++ s, hs.append (.quoted hbody .nil) hd, ?_⟩
    simp
  | case4 d c text' hq ho ih =>
    obtain ⟨s, hs, rfl⟩ := ih (Nat.succ_pos d) h
    cases hs with
    | @close _ n s c' hn hc hs =>
      refine ⟨c :: (n ++ [c']) ++ s, hs.append (.nested ho hn hc .nil) hd, ?_⟩
      simp
  | case5 d c text' hq ho hc hdepth =>
    cases h
    obtain rfl : d = 1 := by omega
    exact ⟨[c], .close .nil hc .nil, rfl⟩
  | case6 d c text' hq ho hc hdepth ih =>
    obtain ⟨s, hs, rfl⟩ := ih (Nat.pos_of_ne_zero hdepth) h
    obtain ⟨e, rfl⟩ : ∃ e, d = e + 1 := ⟨d - 1, by omega⟩
    exact ⟨c :: s, .close (n := []) .nil hc hs, rfl⟩
  | case7 d c text' hq ho hc ih =>
    obtain ⟨s, hs, rfl⟩ := ih hd h
    have hinert : IsInert c := ⟨⟨hq, fun h => ho (Or.inl h), fun h => hc (Or.inl h)⟩,
      fun h => ho (Or.inr h), fun h => hc (Or.inr h)⟩
    exact ⟨[c] ++ s, hs.append (.inert hinert .nil) hd, rfl⟩

/-! ## Values -/

theorem skipWs_token (hw : IsWs w) (hs : IsToken s) (rest : List UInt8) :
    skipWs (w ++ s ++ rest) = s ++ rest := by
  obtain ⟨b, n, rfl, hb⟩ := hs.head
  rw [append_assoc, skipWs_blanks hw, cons_append, skipWs_solid hb]

/-- **A token is scanned to its end**, where what follows could end a word. -/
theorem scanValue_token {rest : List UInt8} (h : IsToken s) (hrest : ∀ b ∈ rest.head?, EndsWord b) :
    scanValue (s ++ rest) = some rest := by
  rcases h with ⟨body, hbody, rfl⟩ | hbracketed | ⟨b, n, rfl, hq, ho, hword⟩
  · rw [cons_append, append_assoc, singleton_append, scanValue, if_pos rfl, scanString_body hbody]
  · have hscan := scanNested_bracketed hbracketed rest
    obtain ⟨o, inner, c, ho, -, -, rfl⟩ := hbracketed
    have hq : o ≠ 0x22 := by
      rintro rfl
      exact not_isOpening_quote ho
    rw [cons_append] at hscan ⊢
    have hbrace : o = 0x7B ∨ o = 0x5B := ho
    rw [scanValue, if_neg hq, if_pos hbrace, hscan]
  · have hrun : ∀ d ∈ n, (!endsWord d) = true := fun d hd => by
      rw [not_eq_true', ← not_eq_true, endsWord_iff]
      exact hword d (mem_cons_of_mem b hd)
    have hb : ¬ endsWord b = true := fun h => hword b mem_cons_self (endsWord_iff.mp h)
    have hbrace : ¬ (b = 0x7B ∨ b = 0x5B) := ho
    rw [cons_append, scanValue, if_neg hq, if_neg hbrace, if_neg hb, dropWhile_append_of_pos hrun]
    cases rest with
    | nil => rfl
    | cons c rest =>
      have hc : ¬ (!endsWord c) = true := by
        rw [not_eq_true', not_eq_false]
        exact endsWord_iff.mpr (hrest c rfl)
      exact congrArg some (dropWhile_cons_of_neg (p := fun a => !endsWord a) hc)

/-- **What is scanned as a value is a token.** -/
theorem scanValue_inv {text rest : List UInt8} (h : scanValue text = some rest) :
    ∃ s, IsToken s ∧ text = s ++ rest := by
  cases text with
  | nil => cases h
  | cons c text =>
    rw [scanValue] at h
    by_cases hq : c = 0x22
    · rw [if_pos hq] at h
      obtain ⟨body, hbody, rfl⟩ := scanString_inv h
      subst hq
      exact ⟨_, Or.inl ⟨body, hbody, rfl⟩, by simp⟩
    rw [if_neg hq] at h
    by_cases ho : c = 0x7B ∨ c = 0x5B
    · rw [if_pos ho, scanNested_opening ho] at h
      obtain ⟨s, hs, rfl⟩ := scanNested_inv Nat.one_pos h
      cases hs with
      | @close _ n _ c' hn hc hs =>
        cases hs with
        | nil => exact ⟨_, Or.inr (Or.inl ⟨c, n, c', ho, hn, hc, rfl⟩), by simp⟩
    rw [if_neg ho] at h
    by_cases hend : endsWord c = true
    · rw [if_pos hend] at h
      cases h
    rw [if_neg hend] at h
    cases h
    refine ⟨c :: text.takeWhile fun c => !endsWord c, Or.inr (Or.inr ⟨c, _, rfl, hq, ho, ?_⟩), ?_⟩
    · intro d hd
      rcases mem_cons.mp hd with rfl | hd
      · exact fun h => hend (endsWord_iff.mpr h)
      · have := mem_takeWhile_imp hd
        rw [not_eq_true', ← not_eq_true, endsWord_iff] at this
        exact this
    · rw [cons_append, takeWhile_append_dropWhile]

theorem endsWord_of_isWs (hw : IsWs w) : ∀ b ∈ w.head?, EndsWord b :=
  fun b hb => Or.inr (Or.inr (hw b (List.mem_of_mem_head? hb)))

/-- **A text passes** when it is one token with blanks around it. -/
theorem cbJsonValid_iff {text : List UInt8} : cbJsonValid text = true ↔
    ∃ w s w', IsWs w ∧ IsToken s ∧ IsWs w' ∧ text = w ++ s ++ w' := by
  rw [cbJsonValid]
  constructor
  · intro h
    cases hscan : scanValue (skipWs text) with
    | none =>
      rw [hscan] at h
      cases h
    | some rest =>
      rw [hscan, List.isEmpty_iff, skipWs_eq_nil_iff] at h
      obtain ⟨w, hw, htext⟩ := skipWs_split text
      obtain ⟨s, hs, hvalue⟩ := scanValue_inv hscan
      exact ⟨w, s, rest, hw, hs, h, by rw [append_assoc, ← hvalue, ← htext]⟩
  · rintro ⟨w, s, w', hw, hs, hw', rfl⟩
    rw [skipWs_token hw hs, scanValue_token hs (endsWord_of_isWs hw'), List.isEmpty_iff]
    exact skipWs_eq_nil_iff.mpr hw'

theorem token_unique {t : List UInt8} (hw : IsWs w) (hs : IsToken s) (hw' : IsWs w') (hv : IsWs v)
    (ht : IsToken t) (hv' : IsWs v') (heq : w ++ s ++ w' = v ++ t ++ v') : s = t := by
  have hskip : s ++ w' = t ++ v' := by
    rw [← skipWs_token hw hs w', heq, skipWs_token hv ht v']
  have hrest : some w' = some v' := by
    rw [← scanValue_token hs (endsWord_of_isWs hw'), hskip,
      scanValue_token ht (endsWord_of_isWs hv')]
  cases hrest
  exact append_cancel_right hskip

theorem isJsonText_iff_derives (hw : IsWs w) (hs : IsToken s) (hw' : IsWs w') :
    IsJsonText (w ++ s ++ w') ↔ Derives .value s := by
  constructor
  · rintro ⟨v, t, v', hv, ht, hv', heq⟩
    cases token_unique hw hs hw' hv ht.isToken hv' heq
    exact ht
  · exact fun h => ⟨w, s, w', hw, h, hw', rfl⟩

/-! ## Members -/

theorem upTo_append (s rest : List UInt8) : upTo (s ++ rest) rest = s := by
  rw [upTo, length_append, Nat.add_sub_cancel, take_left]

/-- The members as the callback is given them. -/
def cbMemberList (ms : List (List UInt8 × List UInt8)) : List CbMember :=
  ms.map fun m => ⟨m.1, m.2⟩

theorem scanMembers_round {text afterKey afterColon afterVal more : List UInt8} {c : UInt8}
    (hkey : scanString text = some afterKey) (hcolon : skipWs afterKey = 0x3A :: afterColon)
    (hval : scanValue (skipWs afterColon) = some afterVal) (hnext : skipWs afterVal = c :: more) :
    scanMembers (0x22 :: text) = if c = 0x2C then
        (⟨(upTo text afterKey).dropLast, upTo (skipWs afterColon) afterVal⟩ ::
          (scanMembers (skipWs more)).1, (scanMembers (skipWs more)).2)
      else
        ([⟨(upTo text afterKey).dropLast, upTo (skipWs afterColon) afterVal⟩], c == 0x7D) := by
  rw [scanMembers, if_neg (fun h => h rfl)]
  split
  · next h => exact absurd (hkey.symm.trans h) (by simp)
  next key h =>
  cases hkey.symm.trans h
  split
  · next h => exact absurd (hcolon.symm.trans h) (by simp)
  next b colon h =>
  cases hcolon.symm.trans h
  rw [if_neg (fun h => h rfl)]
  split
  · next h => exact absurd (hval.symm.trans h) (by simp)
  next val h =>
  cases hval.symm.trans h
  split
  · next h => exact absurd (hnext.symm.trans h) (by simp)
  next b next h =>
  cases hnext.symm.trans h
  rfl

theorem scanMembers_member {k : List UInt8} (hw : IsWs w) (hk : IsChars k) (hw' : IsWs w')
    (hv : IsWs v) (hs : Derives .value s) (hv' : IsWs v') {c : UInt8} (hc : c = 0x2C ∨ c = 0x7D)
    (tail : List UInt8) :
    scanMembers (skipWs ((w ++ (0x22 :: k ++ [0x22]) ++ w' ++ 0x3A :: (v ++ s ++ v')) ++
      c :: tail)) = if c = 0x2C then (⟨k, s⟩ :: (scanMembers (skipWs tail)).1,
        (scanMembers (skipWs tail)).2) else ([⟨k, s⟩], true) := by
  have hstart : skipWs ((w ++ (0x22 :: k ++ [0x22]) ++ w' ++ 0x3A :: (v ++ s ++ v')) ++
      c :: tail) = 0x22 :: (k ++ 0x22 :: (w' ++ 0x3A :: (v ++ s ++ (v' ++ c :: tail)))) := by
    simp only [append_assoc, skipWs_blanks hw, cons_append, nil_append]
    exact skipWs_solid (by decide) _
  have hkey := scanString_body hk.isBody (w' ++ 0x3A :: (v ++ s ++ (v' ++ c :: tail)))
  have hcolon : skipWs (w' ++ 0x3A :: (v ++ s ++ (v' ++ c :: tail))) =
      0x3A :: (v ++ s ++ (v' ++ c :: tail)) := by
    rw [skipWs_blanks hw', skipWs_solid (by decide)]
  have hends : ∀ b ∈ (v' ++ c :: tail).head?, EndsWord b := by
    cases v' with
    | nil =>
      rintro b ⟨⟩
      rcases hc with rfl | rfl
      · exact Or.inl rfl
      · exact Or.inr (Or.inl (Or.inl rfl))
    | cons d v' => exact fun b hb => endsWord_of_isWs hv' b hb
  have hskip := skipWs_token hv hs.isToken (v' ++ c :: tail)
  have hvalue := scanValue_token hs.isToken hends
  have hnext : skipWs (v' ++ c :: tail) = c :: tail := by
    rw [skipWs_blanks hv', skipWs_solid (by rcases hc with rfl | rfl <;> decide)]
  have hdrop : (upTo (k ++ 0x22 :: (w' ++ 0x3A :: (v ++ s ++ (v' ++ c :: tail))))
      (w' ++ 0x3A :: (v ++ s ++ (v' ++ c :: tail)))).dropLast = k := by
    rw [append_cons, upTo_append, dropLast_concat]
  rw [hstart, scanMembers_round hkey hcolon (hskip ▸ hvalue) hnext, hskip, upTo_append, hdrop]
  rcases hc with rfl | rfl
  · rfl
  · rfl

/-- **The scan of a list of members.** -/
theorem scanMembers_lists (h : Lists s ms) :
    ∀ {c : UInt8}, c = 0x2C ∨ c = 0x7D → ∀ tail : List UInt8,
      scanMembers (skipWs (s ++ c :: tail)) =
        if c = 0x2C then (cbMemberList ms ++ (scanMembers (skipWs tail)).1,
          (scanMembers (skipWs tail)).2) else (cbMemberList ms, true) := by
  induction h with
  | member hw hk hw' hv hs hv' =>
    exact fun hc tail => scanMembers_member hw hk hw' hv hs hv' hc tail
  | @more s t ms ns _ _ ih ih' =>
    intro c hc tail
    have hfront := ih (Or.inl rfl) (t ++ c :: tail)
    rw [if_pos rfl, ih' hc tail] at hfront
    rw [append_assoc, cons_append, hfront]
    have hmap : cbMemberList (ms ++ ns) = cbMemberList ms ++ cbMemberList ns := map_append
    rcases hc with rfl | rfl
    · simp only [if_true, hmap, append_assoc]
    · simp only [hmap, show ¬ (0x7D : UInt8) = 0x2C by decide, if_false]

/-- **The scanner finds the members of an object**, in their order. -/
theorem cbMembers_of_objectText {text : List UInt8} (h : ObjectText text ms) :
    cbMembers text = (cbMemberList ms, true) := by
  obtain ⟨w, inner, w', hw, hinner, hw', rfl⟩ := h
  have hopen : skipWs (w ++ (0x7B :: inner ++ [0x7D]) ++ w') = 0x7B :: (inner ++ 0x7D :: w') := by
    rw [append_assoc, skipWs_blanks hw, cons_append, cons_append,
      skipWs_solid (by decide), append_assoc, singleton_append]
  rw [cbMembers, hopen]
  dsimp only
  rw [if_neg (fun h => h rfl)]
  rcases hinner with ⟨hws, rfl⟩ | hlists
  · rw [skipWs_blanks hws]
    rfl
  · have hscan := scanMembers_lists hlists (Or.inr rfl) w'
    rw [if_neg (by decide)] at hscan
    -- a member starts with a quote, and so does not close the object
    have hhead : ¬ (skipWs (inner ++ 0x7D :: w')).head? = some 0x7D := by
      intro hhead
      obtain ⟨rest, hrest⟩ := List.head?_eq_some_iff.mp hhead
      rw [hrest, scanMembers] at hscan
      exact Bool.false_ne_true (congrArg Prod.snd hscan)
    rw [if_neg hhead, hscan]

/-! ## Callbacks that stop the walk -/

/-- What a member callback answers: go on, `CB_STOP`, or an error. -/
inductive CbAnswer where
  | ok
  | stop
  | fail (err : SmErr)
  deriving DecidableEq

/-- What the walk returns for it. -/
def CbAnswer.result : CbAnswer → Except SmErr Unit
  | ok => .ok ()
  | stop => .ok ()
  | fail err => .error err

section Visit

variable {S : Type*}

/-- The callback on each member in turn, until it stops or fails. -/
def visit (cb : S → CbMember → CbAnswer × S) : S → List CbMember → CbAnswer × S
  | s, [] => (.ok, s)
  | s, m :: ms => if (cb s m).1 = .ok then visit cb (cb s m).2 ms else cb s m

/-- `cb_json_members`, with a callback that may stop it: text that is malformed
further on is not looked at then. -/
def cbJsonVisit (cb : S → CbMember → CbAnswer × S) (s : S) (text : List UInt8) :
    Except SmErr Unit × S :=
  (if (visit cb s (cbMembers text).1).1 = .ok then
      if (cbMembers text).2 then .ok () else .error .invalidArg
    else (visit cb s (cbMembers text).1).1.result,
    (visit cb s (cbMembers text).1).2)

/-- A callback that never stops the walk. -/
def unstopped (cb : S → CbMember → Except SmErr Unit × S) (s : S) (m : CbMember) : CbAnswer × S :=
  ((match (cb s m).1 with
    | .ok () => .ok
    | .error err => .fail err), (cb s m).2)

theorem visit_unstopped (cb : S → CbMember → Except SmErr Unit × S) (ms : List CbMember) :
    ∀ s : S, ((visit (unstopped cb) s ms).1.result, (visit (unstopped cb) s ms).2) =
      walk cb s ms ∧ (visit (unstopped cb) s ms).1 ≠ .stop := by
  induction ms with
  | nil => exact fun s => ⟨rfl, by simp [visit]⟩
  | cons m ms ih =>
    intro s
    rcases hcb : cb s m with ⟨err | _, s'⟩
    · have hanswer : unstopped cb s m = (.fail err, s') := by rw [unstopped, hcb]
      rw [visit, hanswer, walk, hcb]
      exact ⟨rfl, by simp⟩
    · have hanswer : unstopped cb s m = (.ok, s') := by rw [unstopped, hcb]
      rw [visit, hanswer, walk, hcb]
      exact ih s'

theorem cbJsonVisit_unstopped (cb : S → CbMember → Except SmErr Unit × S) (s : S)
    (text : List UInt8) : cbJsonVisit (unstopped cb) s text = cbJsonMembers cb s text := by
  obtain ⟨hwalk, hstop⟩ := visit_unstopped cb (cbMembers text).1 s
  rw [cbJsonVisit, cbJsonMembers, ← hwalk]
  cases h : (visit (unstopped cb) s (cbMembers text).1).1 with
  | ok => rfl
  | stop => exact absurd h hstop
  | fail err => rfl

end Visit

def findCb (key : List UInt8) (out : Option (List UInt8)) (m : CbMember) :
    CbAnswer × Option (List UInt8) :=
  if m.key == key then (.stop, some m.val) else (.ok, out)

theorem cbJsonFind_eq_visit (text key : List UInt8) :
    cbJsonFind text key = (cbJsonVisit (findCb key) none text).2 := by
  rw [cbJsonFind, cbJsonVisit]
  induction (cbMembers text).1 with
  | nil => rfl
  | cons m ms ih =>
    rw [List.find?_cons, visit]
    cases hkey : m.key == key with
    | true =>
      have hstop : findCb key none m = (.stop, some m.val) := if_pos hkey
      rw [hstop]
      rfl
    | false =>
      have hgo : findCb key none m = (.ok, none) := if_neg (eq_false_iff.mp hkey)
      rw [hgo]
      exact ih

/-! ## The scanner and JSON -/

/-- A text that passes and is not JSON: between its blanks stands a string with a byte
or an escape that no string holds, a text in brackets that match nothing, or a word
that is no value. -/
def IsMisread (text : List UInt8) : Prop :=
  ∃ w s w', IsWs w ∧ IsWs w' ∧ text = w ++ s ++ w' ∧
    ((∃ body, IsBody body ∧ ¬ IsChars body ∧ s = 0x22 :: (body ++ [0x22])) ∨
      IsBracketed s ∧ ¬ Derives .value s ∨ IsWord s ∧ ¬ IsScalar s)

theorem isMisread_iff {text : List UInt8} : IsMisread text ↔
    ∃ w s w', IsWs w ∧ IsWs w' ∧ text = w ++ s ++ w' ∧ IsToken s ∧ ¬ Derives .value s := by
  have hkind : ∀ s, ((∃ body, IsBody body ∧ ¬ IsChars body ∧ s = 0x22 :: (body ++ [0x22])) ∨
      IsBracketed s ∧ ¬ Derives .value s ∨ IsWord s ∧ ¬ IsScalar s) ↔
      IsToken s ∧ ¬ Derives .value s := by
    intro s
    constructor
    · rintro (⟨body, hbody, hchars, rfl⟩ | ⟨hs, hnot⟩ | ⟨hs, hnot⟩)
      · exact ⟨Or.inl ⟨body, hbody, rfl⟩, fun h => hchars (derives_quoted_iff.mp h)⟩
      · exact ⟨Or.inr (Or.inl hs), hnot⟩
      · exact ⟨Or.inr (Or.inr hs), fun h => hnot ((derives_word_iff hs).mp h)⟩
    · rintro ⟨⟨body, hbody, rfl⟩ | hs | hs, hnot⟩
      · exact Or.inl ⟨body, hbody, fun h => hnot (derives_quoted_iff.mpr h), rfl⟩
      · exact Or.inr (Or.inl ⟨hs, hnot⟩)
      · exact Or.inr (Or.inr ⟨hs, fun h => hnot ((derives_word_iff hs).mpr h)⟩)
  simp only [IsMisread, hkind]

/-- **The scanner agrees with JSON** as far as the members of an object go: a callback
sees them in their order, with the key and the text of the value as they stand. A text
that passes is JSON just when it is not misread. -/
theorem scanner_agrees {S : Type*} (cb : S → CbMember → CbAnswer × S) (s : S) (text : List UInt8) :
    (∀ ms, ObjectText text ms → cbJsonVisit cb s text =
        ((visit cb s (cbMemberList ms)).1.result, (visit cb s (cbMemberList ms)).2)) ∧
      ((cbJsonValid text = true → IsJsonText text) ↔ ¬ IsMisread text) := by
  constructor
  · intro ms hms
    rw [cbJsonVisit, cbMembers_of_objectText hms]
    by_cases hok : (visit cb s (cbMemberList ms)).1 = .ok
    · rw [hok]
      rfl
    · rw [if_neg hok]
  · rw [isMisread_iff, cbJsonValid_iff]
    constructor
    · rintro h ⟨w, t, w', hw, hw', rfl, ht, hnot⟩
      exact hnot ((isJsonText_iff_derives hw ht hw').mp (h ⟨w, t, w', hw, ht, hw', rfl⟩))
    · rintro h ⟨w, t, w', hw, ht, hw', rfl⟩
      rw [isJsonText_iff_derives hw ht hw']
      by_contra hnot
      exact h ⟨w, t, w', hw, hw', rfl, ht, hnot⟩

/-- `abc` passes for a value. -/
theorem word_passes : ¬ ∀ text, cbJsonValid text = true → IsJsonText text := by
  have hword : IsWord [0x61, 0x62, 0x63] := isWord_of_all (by decide) (by decide) (by decide)
  have hws : IsWs [] := fun _ hb => absurd hb not_mem_nil
  intro h
  have hvalue := (isJsonText_iff_derives hws (Or.inr (Or.inr hword)) hws).mp
    (h [0x61, 0x62, 0x63] (by decide))
  rcases (derives_word_iff hword).mp hvalue with heq | heq | heq | hnumber
  · exact absurd heq (by decide)
  · exact absurd heq (by decide)
  · exact absurd heq (by decide)
  · exact absurd (numberByte_of_isNumber hnumber 0x61 mem_cons_self)
      (by unfold IsNumberByte; decide)

end Meatpi
