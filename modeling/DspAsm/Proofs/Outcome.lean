import Mathlib

namespace DspAsm

variable {ε α β γ σ : Type}

theorem bind_eq_ok {step : Except ε α} {next : α → Except ε β} {result : β} :
    step >>= next = .ok result ↔ ∃ value, step = .ok value ∧ next value = .ok result := by
  cases step with
  | error fault => simp [bind, Except.bind]
  | ok value => simp [bind, Except.bind]

theorem exists_error_iff {result : Except ε α} : (∃ fault, result = .error fault) ↔ ¬ ∃ value, result = .ok value := by
  cases result <;> simp

theorem map_eq_ok {step : Except ε α} {change : α → β} {result : β} :
    step.map change = .ok result ↔ ∃ value, step = .ok value ∧ change value = result := by
  cases step with
  | error fault => simp [Except.map]
  | ok value => simp [Except.map]

theorem map_map {step : Except ε α} {first : α → β} {second : β → γ} :
    (step.map first).map second = step.map (second ∘ first) := by
  cases step <;> rfl

theorem pure_eq_ok {value result : α} : (pure value : Except ε α) = .ok result ↔ value = result := by
  simp [pure, Except.pure]

theorem bind_eq_error {step : Except ε α} {next : α → Except ε β} {fault : ε} :
    step >>= next = .error fault ↔ step = .error fault ∨ ∃ value, step = .ok value ∧ next value = .error fault := by
  cases step with
  | error fault => simp [bind, Except.bind]
  | ok value => simp [bind, Except.bind]

@[simp] theorem ok_bind {value : α} {next : α → Except ε β} : Except.ok value >>= next = next value := rfl

theorem check_eq_ok {fails : Prop} [Decidable fails] {fault : ε} {next : α → Except ε β} {rest : Except ε β}
    {result : β} :
    (if fails then throw fault >>= next else rest) = .ok result ↔ ¬ fails ∧ rest = .ok result := by
  by_cases h : fails
  · simp [h, throw, throwThe, MonadExceptOf.throw, bind, Except.bind]
  · simp [h]

theorem check_eq_error {fails : Prop} [Decidable fails] {fault found : ε} {next : α → Except ε β} {rest : Except ε β} :
    (if fails then throw fault >>= next else rest) = .error found ↔
      fails ∧ fault = found ∨ ¬ fails ∧ rest = .error found := by
  by_cases h : fails
  · simp [h, throw, throwThe, MonadExceptOf.throw, bind, Except.bind]
  · simp [h]

theorem guards_eq_ok {first second : Prop} [Decidable first] [Decidable second] {fault fault' : ε} {value result : α} :
    (if first then .error fault else if second then .error fault' else .ok value : Except ε α) = .ok result ↔
      ¬ first ∧ ¬ second ∧ result = value := by
  by_cases early : first
  · simp [early]
  · by_cases late : second <;> simp [early, late, eq_comm]

theorem guards_eq_error {first second : Prop} [Decidable first] [Decidable second] {fault fault' found : ε}
    {value : α} :
    (if first then .error fault else if second then .error fault' else .ok value : Except ε α) = .error found ↔
      first ∧ found = fault ∨ ¬ first ∧ second ∧ found = fault' := by
  by_cases early : first
  · simp [early, eq_comm]
  · by_cases late : second <;> simp [early, late, eq_comm]

theorem choice_bind_eq_ok {choice : Prop} [Decidable choice] {yes no : Except ε α} {next : α → Except ε β}
    {result : β} :
    (if choice then yes >>= next else no >>= next) = .ok result ↔
      ∃ value, (if choice then yes else no) = .ok value ∧ next value = .ok result := by
  by_cases h : choice <;> simp only [h, if_true, if_false, bind_eq_ok]

theorem mapM_eq_ok {step : α → Except ε β} {values : List α} {results : List β} :
    values.mapM step = .ok results ↔ List.Forall₂ (fun value result => step value = .ok result) values results := by
  induction values generalizing results with
  | nil => cases results <;> simp [pure_eq_ok]
  | cons value values ih =>
      simp only [List.mapM_cons, bind_eq_ok, pure_eq_ok, ih, List.forall₂_cons_left_iff]
      constructor
      · rintro ⟨head, hhead, tail, htail, rfl⟩
        exact ⟨head, tail, hhead, htail, rfl⟩
      · rintro ⟨head, tail, hhead, htail, rfl⟩
        exact ⟨head, hhead, tail, htail, rfl⟩

theorem exists_of_mem_mapM {step : α → Except ε β} {values : List α} {results : List β}
    (run : values.mapM step = .ok results) {result : β} (member : result ∈ results) :
    ∃ value ∈ values, step value = .ok result := by
  have pairs := mapM_eq_ok.mp run
  clear run
  induction pairs with
  | nil => cases member
  | cons head _ ih =>
      rcases List.mem_cons.mp member with rfl | member
      · exact ⟨_, List.mem_cons_self, head⟩
      · obtain ⟨value, among, made⟩ := ih member
        exact ⟨value, List.mem_cons_of_mem _ among, made⟩

theorem exists_mapM_eq_ok {step : α → Except ε β} {values : List α} :
    (∃ results, values.mapM step = .ok results) ↔ ∀ value ∈ values, ∃ result, step value = .ok result := by
  induction values with
  | nil => simp [pure_eq_ok]
  | cons value values ih =>
      simp only [List.mapM_cons, bind_eq_ok, pure_eq_ok, List.forall_mem_cons, ← ih]
      constructor
      · rintro ⟨_, result, first, results, run, -⟩
        exact ⟨⟨result, first⟩, results, run⟩
      · rintro ⟨⟨result, first⟩, results, run⟩
        exact ⟨_, result, first, results, run, rfl⟩

theorem exists_split_append_singleton (holds : List α → α → Prop) {items : List α} {last : α} :
    (∃ before item after, items ++ [last] = before ++ item :: after ∧ holds before item) ↔
      (∃ before item after, items = before ++ item :: after ∧ holds before item) ∨ holds items last := by
  constructor
  · rintro ⟨before, item, after, split, found⟩
    induction after using List.reverseRecOn with
    | nil =>
        obtain ⟨rfl, rfl⟩ := List.append_singleton_inj.mp split
        exact .inr found
    | append_singleton after _ _ =>
        rw [← List.cons_append, ← List.append_assoc, List.append_singleton_inj] at split
        exact .inl ⟨before, item, after, split.1, found⟩
  · rintro (⟨before, item, after, rfl, found⟩ | found)
    · exact ⟨before, item, after ++ [last], by simp, found⟩
    · exact ⟨items, last, [], rfl, found⟩

theorem foldlM_eq_error {step : σ → α → Except ε σ} {inputs : List α} {first : σ} {fault : ε} :
    inputs.foldlM step first = .error fault ↔ ∃ before input after, inputs = before ++ input :: after ∧
      ∃ state, before.foldlM step first = .ok state ∧ step state input = .error fault := by
  induction inputs using List.reverseRecOn with
  | nil => simp [pure, Except.pure]
  | append_singleton inputs input ih =>
      rw [exists_split_append_singleton (fun before input =>
        ∃ state, before.foldlM step first = .ok state ∧ step state input = .error fault), ← ih]
      simp only [List.foldlM_append, List.foldlM_cons, List.foldlM_nil, bind_pure, bind_eq_error]

theorem mapM_eq_error {step : α → Except ε β} {values : List α} {fault : ε} :
    values.mapM step = .error fault ↔ ∃ before value after, values = before ++ value :: after ∧
      (∀ earlier ∈ before, ∃ result, step earlier = .ok result) ∧ step value = .error fault := by
  induction values using List.reverseRecOn with
  | nil => simp [pure, Except.pure]
  | append_singleton values value ih =>
      rw [exists_split_append_singleton (fun before value =>
        (∀ earlier ∈ before, ∃ result, step earlier = .ok result) ∧ step value = .error fault), ← ih]
      simp [← exists_mapM_eq_ok, bind_eq_error, pure, Except.pure]

theorem foldlM_append_singleton_eq_ok {step : σ → α → Except ε σ} {inputs : List α} {input : α} {first last : σ} :
    (inputs ++ [input]).foldlM step first = .ok last ↔
      ∃ state, inputs.foldlM step first = .ok state ∧ step state input = .ok last := by
  simp only [List.foldlM_append, List.foldlM_cons, List.foldlM_nil, bind_pure, bind_eq_ok]

end DspAsm
