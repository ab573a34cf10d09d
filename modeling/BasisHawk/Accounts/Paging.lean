/-
  BasisHawk.Accounts.Paging
  ─────────────────────────
  The pages of a Bybit list (`accounts.py`, `BybitAccountClient._paged`).

  A page names the cursor of the next.  The loop stops at an empty cursor and
  at the one it has just asked for; a cursor that it asked for earlier it asks
  for again.

  Main results:
    • `paged_run` — the loop is a walk along the cursors,
    • `paged_iff` — it collects the pages exactly if no cursor that is reached
      leads back to itself through another one,
    • `paged_cycle` — two cursors that name each other are asked for for ever.
-/
import BasisHawk.Accounts.Http
import BasisHawk.Lib.Orbit

namespace BasisHawk.Accounts

open Domain Lib

/-! ## §1. The server. -/

/-- A server: the page and the next cursor for a cursor, or for none. -/
abbrev PageServer : Type := Option String → List Json × String

namespace PageServer

/-- The cursor a request asks for. -/
def asked (c : HttpCall) : Option String :=
  match c.params.lookup "cursor" with
  | some (.str cursor) => some cursor
  | _ => none

/-- The payload of a page. -/
def payload (page : List Json × String) : Json :=
  .obj [("retCode", .int 0),
    ("result", .obj [("list", .arr page.1), ("nextPageCursor", .str page.2)])]

/-- The server's answer; it keeps no state. -/
def serve (server : PageServer) (c : HttpCall) (u : Unit) : Response × Unit :=
  (.received 200 (some (payload (server (asked c)))), u)

/-- The cursor a page names. -/
def next (server : PageServer) (cursor : Option String) : Option String := some (server cursor).2

/-- The page names no cursor, or its own. -/
def isLast (server : PageServer) (cursor : Option String) : Prop :=
  (server cursor).2 = "" ∨ cursor = some (server cursor).2

instance (server : PageServer) : DecidablePred server.isLast :=
  fun cursor => inferInstanceAs (Decidable ((server cursor).2 = "" ∨ _))

/-- The page names a cursor. -/
def Follows (server : PageServer) (cursor cursor' : Option String) : Prop :=
  (server cursor).2 ≠ "" ∧ cursor' = server.next cursor

/-- The pages were all collected: one after the other from the first, each once
and every one that is named. -/
structure Collects (server : PageServer) (cursors : List (Option String)) (items : List Json) :
    Prop where
  items_eq : items = cursors.flatMap fun c => (server c).1
  first : cursors.head? = some none
  chain : cursors.IsChain server.Follows
  once : cursors.Nodup
  all : ∀ c ∈ cursors, ∀ c', server.Follows c c' → c' ∈ cursors

/-- A cursor leads back to itself through another one. -/
def ComesBack (server : PageServer) : Prop :=
  ∃ c c', Relation.ReflTransGen server.Follows none c ∧ server.Follows c c' ∧ c' ≠ c
    ∧ Relation.ReflTransGen server.Follows c' c

end PageServer

open PageServer

/-! ## §2. The loop. -/

section Loop

variable {server : PageServer} {path : List String} {params : List (String × Json)}

/-- A request carries the cursor of the page before, and none at the first page:
the fixed parameters name no cursor of their own. -/
theorem asked_cursor (h : ∀ p ∈ params, p.1 ≠ "cursor") (cursor : Option String) :
    asked ⟨.get, .main, path, params ++ (cursor.map fun c => ("cursor", Json.str c)).toList⟩
      = cursor := by
  have hparams : params.lookup "cursor" = none := by
    rw [List.lookup_eq_none_iff]
    intro p hp
    simpa using (h p hp).symm
  unfold asked
  rw [List.lookup_append, hparams]
  cases cursor <;> rfl

/-- The loop walks along the cursors, and joins their pages. -/
theorem paged_run (h : ∀ p ∈ params, p.1 ≠ "cursor") (fuel : Nat) (cursor : Option String) :
    (bybitPaged path params fuel cursor).run server.serve ()
      = (.ok ((walk server.next server.isLast fuel cursor).map fun cursors =>
          cursors.flatMap fun c => (server c).1), ()) := by
  induction fuel generalizing cursor with
  | zero => rfl
  | succ fuel ih =>
      -- The page of this cursor, as the server answers it.
      have hanswer : jsonRequest (server.serve ⟨.get, .main, path,
          params ++ (cursor.map fun c => ("cursor", Json.str c)).toList⟩ ()).1
          = .ok (payload (server cursor)) := by
        unfold serve
        rw [asked_cursor h]
        rfl
      -- One round of the loop: request, return code, result, list, next cursor.
      unfold bybitPaged
      rw [run_request_bind_ok]
      refine ⟨_, hanswer, ?_⟩
      rw [run_evaluate_bind_ok]
      refine ⟨(), rfl, ?_⟩
      rw [run_evaluate_bind_ok]
      refine ⟨_, rfl, ?_⟩
      rw [run_evaluate_bind_ok]
      refine ⟨_, Json.getItems_arr rfl, ?_⟩
      rw [run_evaluate_bind_ok]
      refine ⟨_, Json.getText_of_str rfl, ?_⟩
      unfold walk
      by_cases hlast : (server cursor).2 = "" ∨ cursor = some (server cursor).2
      · rw [if_pos hlast, if_pos (show server.isLast cursor from hlast)]
        show (Except.ok _, ()) = (Except.ok (some _), ())
        simp
      · rw [if_neg hlast, if_neg (show ¬server.isLast cursor from hlast), Prog.run_bind_ok]
        refine ⟨_, _, ih _, ?_⟩
        show _ = (Except.ok (Option.map _ (Option.map _
          (walk server.next server.isLast fuel (some (server cursor).2)))), ())
        cases walk server.next server.isLast fuel (some (server cursor).2) with
        | none => rfl
        | some cursors => rfl

/-! ## §3. Walks along the cursors. -/

/-- Where a page does not end the list, the next one follows. -/
theorem follows_of_not_last {c : Option String} (h : ¬server.isLast c) :
    server.Follows c (server.next c) := ⟨fun hempty => h (.inl hempty), rfl⟩

/-- A page that is not the last names a cursor other than the one it was asked
for; equality of the two is what ends the loop. -/
theorem next_ne_of_not_last {c : Option String} (h : ¬server.isLast c) : server.next c ≠ c :=
  fun heq => h (.inr heq.symm)

/-- Another page follows one only where it does not end the list. -/
theorem not_last_of_follows {c c' : Option String} (h : server.Follows c c') (hne : c' ≠ c) :
    ¬server.isLast c := by
  rintro (hempty | hself)
  · exact h.1 hempty
  · exact hne (h.2.trans hself.symm)

/-- As long as no page ends the list, the cursors are a chain. -/
theorem chain_of_not_last {c : Option String} {n : Nat}
    (h : ∀ i < n, ¬server.isLast (server.next^[i] c)) :
    Relation.ReflTransGen server.Follows c (server.next^[n] c) := by
  induction n with
  | zero => exact .refl
  | succ n ih =>
      rw [Function.iterate_succ_apply']
      exact (ih fun i hi => h i (by omega)).tail (follows_of_not_last (h n (by omega)))

/-- Behind a page that ends the list there is at most the page itself. -/
theorem eq_of_last {c c' : Option String} (hlast : server.isLast c)
    (h : Relation.ReflTransGen server.Follows c c') : c' = c := by
  induction h with
  | refl => rfl
  | tail _ hstep ih =>
      rw [ih] at hstep
      by_contra hne
      exact not_last_of_follows hstep hne hlast

/-- A page has one successor, so the pages that are visited form one path, and
the path either ends or runs into a cycle. -/
theorem follows_rightUnique : Relator.RightUnique server.Follows :=
  fun _ _ _ h h' => h.2.trans h'.2.symm

/-- From every cursor on a cycle each other one is reached. -/
theorem reaches_back {c c' d : Option String} (hstep : server.Follows c c')
    (hback : Relation.ReflTransGen server.Follows c' c)
    (h : Relation.ReflTransGen server.Follows c d) : Relation.ReflTransGen server.Follows d c := by
  induction h with
  | refl => exact .refl
  | tail _ hde ih =>
      rcases ih.cases_head with rfl | ⟨e', hde', he'⟩
      · rw [follows_rightUnique hde hstep]
        exact hback
      · rw [follows_rightUnique hde hde']
        exact he'

/-- A list that ends does not come back to a cursor through another. -/
theorem not_comesBack_of_stopsAt {i : Nat} (h : StopsAt server.next server.isLast none i) :
    ¬server.ComesBack := by
  rintro ⟨c, c', hreach, hstep, hne, hback⟩
  have hc : ¬server.isLast c := not_last_of_follows hstep hne
  have hlast : Relation.ReflTransGen server.Follows none (server.next^[i] none) :=
    chain_of_not_last h.2
  have hto : Relation.ReflTransGen server.Follows (server.next^[i] none) c := by
    rcases Relation.ReflTransGen.total_of_right_unique follows_rightUnique hlast hreach with hto | hto
    · exact hto
    · exact reaches_back hstep hback hto
  exact hc (eq_of_last h.1 hto ▸ h.1)

/-- Of finitely many cursors one comes twice, and a list that does not end comes
back to it through another. -/
theorem comesBack_of_endless (hfinite : (Set.range fun c => (server c).2).Finite)
    (h : ∀ i, ¬server.isLast (server.next^[i] none)) : server.ComesBack := by
  have hnext : (Set.range server.next).Finite := by
    have himage : Set.range server.next = some '' Set.range fun c => (server c).2 := by
      rw [← Set.range_comp]
      rfl
    rw [himage]
    exact Set.Finite.image some hfinite
  obtain ⟨j, k, hjk, heq⟩ := exists_repeat hnext none
  have hstep := h j
  refine ⟨server.next^[j] none, server.next (server.next^[j] none), chain_of_not_last fun i _ => h i,
    follows_of_not_last hstep, next_ne_of_not_last hstep, ?_⟩
  obtain ⟨m, rfl⟩ : ∃ m, k = m + 1 + j := ⟨k - j - 1, by omega⟩
  have hreturn : server.next^[m] (server.next (server.next^[j] none)) = server.next^[j] none := by
    rw [← Function.iterate_succ_apply, ← Function.iterate_add_apply, ← heq]
  conv_rhs => rw [← hreturn]
  refine chain_of_not_last fun i _ => ?_
  rw [← Function.iterate_succ_apply, ← Function.iterate_add_apply]
  exact h _

/-! ## §4. All pages. -/

/-- The trail to the last page collects all pages. -/
theorem collects_trail {i : Nat} (h : StopsAt server.next server.isLast none i) :
    server.Collects (trail server.next none i)
      ((trail server.next none i).flatMap fun c => (server c).1) where
  items_eq := rfl
  first := head_trail i
  chain := chain_trail (fun _ hc => follows_of_not_last hc) h
  once := nodup_of_stopsAt h
  all := by
    intro c hc c' hstep
    obtain ⟨j, hj, rfl⟩ := mem_trail.mp hc
    rcases Nat.lt_or_eq_of_le hj with hlt | rfl
    · exact mem_trail.mpr ⟨j + 1, hlt, by rw [Function.iterate_succ_apply', hstep.2]⟩
    · -- The last page can only name itself.
      have hself : c' = server.next^[j] none := by
        by_contra hne
        exact not_last_of_follows hstep hne h.1
      rw [hself]
      exact hc

/-- The loop ends with all pages, each of them once. -/
def PagesCollected (server : PageServer) (path : List String) (params : List (String × Json)) : Prop :=
  ∃ cursors items, server.Collects cursors items ∧ ∃ enough, ∀ fuel, enough ≤ fuel →
    (bybitPaged path params fuel none).run server.serve () = (.ok (some items), ())

/-- With finitely many cursors the loop ends with all pages exactly if no cursor
that is reached leads back to itself through another one. -/
theorem paged_iff (h : ∀ p ∈ params, p.1 ≠ "cursor")
    (hfinite : (Set.range fun c => (server c).2).Finite) :
    PagesCollected server path params ↔ ¬server.ComesBack := by
  constructor
  · rintro ⟨cursors, items, -, enough, hrun⟩
    have hended := hrun enough (le_refl _)
    rw [paged_run h] at hended
    obtain ⟨hended, -⟩ := Prod.mk.inj hended
    obtain ⟨visited, hvisited, -⟩ := Option.map_eq_some_iff.mp (Except.ok.inj hended)
    obtain ⟨i, hi⟩ := stopsAt_of_walk hvisited
    exact not_comesBack_of_stopsAt hi
  · intro hacyclic
    have hstop : ∃ i, server.isLast (server.next^[i] none) := by
      by_contra hendless
      exact hacyclic (comesBack_of_endless hfinite fun i hi => hendless ⟨i, hi⟩)
    obtain ⟨i, hi⟩ := exists_stopsAt hstop
    refine ⟨_, _, collects_trail hi, i + 1, fun fuel hfuel => ?_⟩
    rw [paged_run h, walk_eq_some (by omega) hi]
    rfl

end Loop

namespace Sample

/-- Two pages that name each other. -/
def cyclicServer : PageServer
  | none => ([.int 1], "a")
  | some "a" => ([.int 2], "b")
  | some _ => ([.int 3], "a")

/-- Three pages, of which the last names itself. -/
def pageServer : PageServer
  | none => ([.int 1], "a")
  | some "a" => ([.int 2], "b")
  | some _ => ([.int 3], "b")

/-- A server that names two cursors only meets the finiteness that the loop's
fuel is computed from. -/
theorem finite_of_two {server : PageServer} (h : ∀ c, (server c).2 = "a" ∨ (server c).2 = "b") :
    (Set.range fun c => (server c).2).Finite := by
  refine Set.Finite.subset (Set.toFinite {"a", "b"}) ?_
  rintro _ ⟨c, rfl⟩
  exact h c

theorem cyclicServer_finite : (Set.range fun c => (cyclicServer c).2).Finite := by
  refine finite_of_two fun c => ?_
  unfold cyclicServer
  split
  · exact .inl rfl
  · exact .inr rfl
  · exact .inl rfl

theorem pageServer_finite : (Set.range fun c => (pageServer c).2).Finite := by
  refine finite_of_two fun c => ?_
  unfold pageServer
  split
  · exact .inl rfl
  · exact .inr rfl
  · exact .inr rfl

end Sample

/-- Of two pages that name each other the loop asks for ever. -/
theorem paged_cycle : (Set.range fun c => (Sample.cyclicServer c).2).Finite
    ∧ ¬PagesCollected Sample.cyclicServer ["v5", "execution", "list"] [("limit", .int 100)]
    ∧ ∀ fuel, (bybitPaged ["v5", "execution", "list"] [("limit", .int 100)] fuel none).run
        (serve Sample.cyclicServer) () = (.ok none, ()) := by
  have hparams : ∀ p ∈ [("limit", Json.int 100)], p.1 ≠ "cursor" := by simp
  have hendless : ∀ i, ¬StopsAt (next Sample.cyclicServer) (isLast Sample.cyclicServer) none i := by
    intro i hi
    refine not_comesBack_of_stopsAt hi ⟨some "a", some "b", ?_, ⟨by decide, rfl⟩, by decide, ?_⟩
    · exact .single ⟨by decide, rfl⟩
    · exact .single ⟨by decide, rfl⟩
  have hrun : ∀ fuel, (bybitPaged ["v5", "execution", "list"] [("limit", .int 100)] fuel none).run
      (serve Sample.cyclicServer) () = (.ok none, ()) := by
    intro fuel
    rw [paged_run hparams]
    cases hw : walk (next Sample.cyclicServer) (isLast Sample.cyclicServer) fuel none with
    | none => rfl
    | some visited =>
        obtain ⟨i, hi⟩ := stopsAt_of_walk hw
        exact absurd hi (hendless i)
  refine ⟨Sample.cyclicServer_finite, ?_, hrun⟩
  rintro ⟨cursors, items, -, enough, hcollected⟩
  have h := (hrun enough).symm.trans (hcollected enough (le_refl _))
  cases h

/-- A server whose pages form a chain: no cursor comes back, and the loop
collects every page. -/
theorem paged_iff_chain :
    PagesCollected Sample.pageServer ["v5", "execution", "list"] [("limit", .int 100)]
      ↔ ¬ComesBack Sample.pageServer :=
  paged_iff (by simp) Sample.pageServer_finite

end BasisHawk.Accounts
