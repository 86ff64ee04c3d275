import Oxidize.Proofs.Grammar.Token

/-!
# Clones among the tokens

A variable whose value is still needed is read with `clone()` behind its name. The call of a member
binds tighter than every operator, so the rest of the tokens groups in the same way with the calls and
without them. `unclone` leaves them out, and the grammar is about what remains.

`Clones p ts us` says that `ts` are the tokens `us` with calls of `clone` put in, and that none is put in
if `p` holds. It is kept by every way of putting tokens together, and it determines `us` where these are
the tokens of an expression (`Clones.unclone_append`).
-/

namespace Oxidize.Source

/-- The tokens without the calls of `clone`. -/
def unclone : List Token → List Token
  | [] => []
  | .mark "." :: .word "clone" :: .mark "(" :: .mark ")" :: ts => unclone ts
  | x :: ts => x :: unclone ts

/-- Only a point may start a call that is left out. -/
theorem unclone_cons {x : Token} (hx : x ≠ .mark ".") (ts : List Token) :
    unclone (x :: ts) = x :: unclone ts := by
  rw [unclone]
  rintro _ rfl
  exact absurd rfl hx

/-- The first tokens are the second ones with calls of `clone` put in, none if `p` holds. -/
inductive Clones (p : Prop) : List Token → List Token → Prop
  | nil : Clones p [] []
  | cons (x : Token) {ts us : List Token} : Clones p ts us → Clones p (x :: ts) (x :: us)
  | clone {ts us : List Token} : ¬p → Clones p ts us → Clones p (callTokens "clone" ++ ts) us

namespace Clones

variable {p q : Prop} {ts ts' us us' : List Token}

/-- Without any call. -/
theorem refl (p : Prop) (ts : List Token) : Clones p ts ts := by
  induction ts with
  | nil => exact .nil
  | cons x ts ih => exact ih.cons x

/-- A stronger condition may be the one under which nothing is put in. -/
theorem mono (h : Clones p ts us) (hqp : q → p) : Clones q ts us := by
  induction h with
  | nil => exact .nil
  | cons x _ ih => exact ih.cons x
  | clone hp _ ih => exact ih.clone fun hq => hp (hqp hq)

/-- Clones in a row are removed from both parts. -/
theorem append (h : Clones p ts us) (h' : Clones p ts' us') : Clones p (ts ++ ts') (us ++ us') := by
  induction h with
  | nil => exact h'
  | cons x _ ih => exact ih.cons x
  | clone hp _ ih =>
    rw [List.append_assoc]
    exact ih.clone hp

/-- Where nothing is put in, the tokens are the same. -/
theorem eq (h : Clones p ts us) (hp : p) : ts = us := by
  induction h with
  | nil => rfl
  | cons x _ ih => rw [ih]
  | clone hnot => exact absurd hp hnot

/-- What the calls are put into remains without them, unless it accesses members itself. -/
theorem unclone_append (h : Clones p ts us) (hus : .mark "." ∉ us) (vs : List Token) :
    unclone (ts ++ vs) = us ++ unclone vs := by
  induction h with
  | nil => rfl
  | @cons x ts us _ ih =>
    have hx : x ≠ .mark "." := (List.ne_of_not_mem_cons hus).symm
    rw [List.cons_append, unclone_cons hx, ih (List.not_mem_of_not_mem_cons hus), List.cons_append]
  | clone _ _ ih => exact ih hus

/-- Tokens around those that the calls are put into. -/
theorem unclone_between (h : Clones p ts us) (hus : .mark "." ∉ us) {front back : List Token}
    (hfront : .mark "." ∉ front) (hback : unclone back = back) :
    unclone (front ++ ts ++ back) = front ++ us ++ back := by
  have hwhole := (Clones.refl p front).append h
  rw [hwhole.unclone_append (by simp [hfront, hus]), hback]

end Clones

end Oxidize.Source
