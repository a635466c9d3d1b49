import Vanadium.Bip388.Descriptor
import Vanadium.Lib.Prompt

/-!
# The parser of descriptor templates ends

It returns a template or an error, or it cuts a character and panics; it never
waits. Every part of it is a sequence of looks at the text.
-/

namespace Vanadium.Bip388

open Lib Exec

theorem prompt_skip (n : ℕ) : Prompt (skip n) := .modify _

theorem prompt_expect (p : String) : Prompt (expect p) :=
  .bind .get fun _ => .bind (.reject _ _) fun _ => prompt_skip _

theorem prompt_number (max : U32) : Prompt (parse_number_up_to max) :=
  .bind .get fun _ => .bind (.reject _ _) fun _ => .bind (.reject _ _) fun _ =>
    .bind (.reject _ _) fun _ => .bind (.reject _ _) fun _ => .bind (.set _) fun _ => .pure _

theorem prompt_step : Prompt parse_derivation_step_number :=
  .bind (prompt_number _) fun _ => .bind .get fun _ =>
    .ite (.bind (prompt_skip _) fun _ => .pure _) (.pure _)

theorem prompt_suffix : Prompt parse_derivation_suffix :=
  .bind (prompt_expect _) fun _ => .bind .get fun _ =>
    .ite (.bind (prompt_skip _) fun _ => .pure _) <|
      .ite (.bind (prompt_skip _) fun _ => .bind prompt_step fun _ => .bind (prompt_expect _)
        fun _ => .bind prompt_step fun _ => .bind (prompt_expect _) fun _ => .pure _) (.throw _)

theorem prompt_musig_loop (fuel : ℕ) (key_indices : List U32) :
    Prompt (parse_musig_key_expression.loop fuel key_indices) := by
  induction fuel generalizing key_indices with
  | zero => exact .pure _
  | succ fuel ih =>
      exact .bind (prompt_expect _) fun _ => .bind (prompt_number _) fun _ =>
        .bind (.reject _ _) fun _ => .bind .get fun _ =>
          .ite (.bind (prompt_skip _) fun _ => ih _) (.pure _)

theorem prompt_musig : Prompt parse_musig_key_expression :=
  .bind (prompt_skip _) fun _ => .bind .get fun _ => .bind (prompt_musig_loop _ _) fun _ =>
    .bind (.reject _ _) fun _ => .bind (prompt_expect _) fun _ => .bind prompt_suffix fun _ =>
      .pure _

theorem prompt_key (ctx : ParseContext) : Prompt (parse_key_expression ctx) :=
  .bind .get fun _ => .ite (.bind (.reject _ _) fun _ => prompt_musig) <|
    .bind (prompt_expect _) fun _ => .bind (prompt_number _) fun _ =>
      .bind prompt_suffix fun _ => .pure _

section
variable (name : String) (ctx : ParseContext)

theorem prompt_kp (build : KeyExpression → DescriptorTemplate) :
    Prompt (parse_kp_fragment name build ctx) :=
  .bind (prompt_skip _) fun _ => .bind (prompt_key ctx) fun _ => .bind (prompt_expect _)
    fun _ => .pure _

theorem prompt_num (max : U32) (build : U32 → DescriptorTemplate) :
    Prompt (parse_num_fragment name max build) :=
  .bind (prompt_skip _) fun _ => .bind (prompt_number _) fun _ => .bind (prompt_expect _)
    fun _ => .pure _

theorem prompt_hex (n : ℕ) (build : Vector U8 n → DescriptorTemplate) :
    Prompt (parse_hex_fragment n name build) :=
  .bind (prompt_skip _) fun _ => .bind .get fun _ => .bind (.reject _ _) fun _ =>
    .bind (.unwrap _) fun _ => .bind (.orElse _ _) fun _ => .bind (.set _) fun _ =>
      .bind (prompt_expect _) fun _ => .pure _

theorem prompt_keys_loop (max_keys fuel : ℕ) (keys : List KeyExpression) :
    Prompt (parse_threshold_kp_fragment.loop ctx max_keys fuel keys) := by
  induction fuel generalizing keys with
  | zero => exact .pure _
  | succ fuel ih =>
      refine .bind .get fun rest => .ite (.bind (.reject _ _) fun _ => .bind (.attempt <|
        .bind (prompt_skip _) fun _ => prompt_key ctx) fun key => ?_) (.pure _)
      split
      · exact ih _
      · exact .throw _
      · exact .pure _

theorem prompt_keys (build : U32 → List KeyExpression → DescriptorTemplate) (max_keys : ℕ) :
    Prompt (parse_threshold_kp_fragment name build ctx max_keys) :=
  .bind (prompt_skip _) fun _ => .bind (prompt_number _) fun _ => .bind .get fun _ =>
    .bind (prompt_keys_loop _ _ _ _) fun _ => .bind (.reject _ _) fun _ =>
      .bind (.reject _ _) fun _ => .bind (prompt_expect _) fun _ => .pure _

end

/-! Given a parser of descriptors that does not wait, neither does what is made of it. -/

section
variable {parse : ParseResult DescriptorTemplate} (h : Prompt parse)
include h

theorem prompt_subscripts (n : ℕ) : Prompt (parse_n_subscripts parse n) := by
  fun_induction parse_n_subscripts parse n with
  | case1 => exact .bind (prompt_expect _) fun _ => .pure _
  | case2 => exact .bind h fun _ => .bind (prompt_expect _) fun _ => .pure _
  | case3 n ih =>
      exact .bind h fun _ => .bind (prompt_expect _) fun _ => .bind ih fun _ => .pure _

theorem prompt_unary (name : String) (build : DescriptorTemplate → DescriptorTemplate) :
    Prompt (parse_unary name parse build) := by
  refine .bind (prompt_skip _) fun _ => .bind (prompt_subscripts h 1) fun scripts => ?_
  split
  · exact .pure _
  · exact .panic

theorem prompt_binary (name : String)
    (build : DescriptorTemplate → DescriptorTemplate → DescriptorTemplate) :
    Prompt (parse_binary name parse build) := by
  refine .bind (prompt_skip _) fun _ => .bind (prompt_subscripts h 2) fun scripts => ?_
  split
  · exact .pure _
  · exact .panic

theorem prompt_andor : Prompt (parse_andor parse) := by
  refine .bind (prompt_skip _) fun _ => .bind (prompt_subscripts h 3) fun scripts => ?_
  split
  · exact .pure _
  · exact .panic

theorem prompt_thresh_loop (fuel : ℕ) (scripts : List DescriptorTemplate) :
    Prompt (parse_thresh.loop parse fuel scripts) := by
  induction fuel generalizing scripts with
  | zero => exact .pure _
  | succ fuel ih =>
      refine .bind .get fun rest => .ite (.bind (.attempt <| .bind (prompt_skip _) fun _ => h)
        fun script => ?_) (.pure _)
      split
      · exact ih _
      · exact .throw _
      · exact .pure _

theorem prompt_thresh : Prompt (parse_thresh parse) :=
  .bind (prompt_skip _) fun _ => .bind (prompt_number _) fun _ => .bind (prompt_expect _)
    fun _ => .bind h fun _ => .bind .get fun _ => .bind (prompt_thresh_loop h _ _) fun _ =>
      .bind (.reject _ _) fun _ => .bind (.reject _ _) fun _ => .bind (prompt_expect _)
        fun _ => .pure _

end

theorem prompt_tr {parse : ParseResult TapTree} (h : Prompt parse) : Prompt (parse_tr parse) := by
  refine .bind (prompt_skip _) fun _ => .bind (prompt_key _) fun kp => .bind .get fun _ => ?_
  have hend (tree : Option TapTree) : Prompt (Pure.pure tree >>= fun tree =>
      expect ")" >>= fun _ => Pure.pure (DescriptorTemplate.tr kp tree)) :=
    .bind (.pure _) fun _ => .bind (prompt_expect _) fun _ => .pure _
  exact .ite (.bind (prompt_skip _) fun _ => .bind h fun _ => hend _) (hend _)

theorem prompt_inner {parse : ParseContext → ParseResult DescriptorTemplate}
    {parse_tree : ParseResult TapTree} (h : ∀ ctx, Prompt (parse ctx)) (htree : Prompt parse_tree)
    (ctx : ParseContext) : Prompt (parse_inner_descriptor parse parse_tree ctx) := by
  refine .bind .get fun input => ?_
  have hwsh : Prompt (do
      Exec.reject (¬ ctx.wsh_allowed) .invalidScriptContext
      let inner_ctx ← Exec.orElse ctx.wsh_inner .invalidScriptContext
      parse_unary "wsh" (parse inner_ctx) .wsh) :=
    .bind (.reject _ _) fun _ => .bind (.orElse _ _) fun _ => prompt_unary (h _) _ _
  have hallowed {allowed : Bool} {m : ParseResult DescriptorTemplate} (hm : Prompt m) :
      Prompt (Exec.reject (¬ allowed) .invalidScriptContext >>= fun _ => m) :=
    .bind (.reject _ _) fun _ => hm
  have hall : ∀ f ∈ fragments parse parse_tree ctx, Prompt f.2 := by
    simp only [fragments, List.forall_mem_cons, List.not_mem_nil, false_imp_iff, implies_true,
      parse_hex32_fragment, parse_hex20_fragment, prompt_keys, prompt_kp, prompt_num, prompt_hex,
      prompt_binary (h _), prompt_andor (h _), prompt_thresh (h _), hwsh,
      hallowed (prompt_tr htree), hallowed (prompt_unary (h _) _ _), hallowed (prompt_kp _ _ _),
      and_true]
  split
  · next f hfind => exact hall _ (List.mem_of_find?_eq_some hfind)
  · exact .ite (.bind (prompt_skip _) fun _ => .pure _) <|
      .ite (.bind (prompt_skip _) fun _ => .pure _) (.throw _)

theorem prompt_wrappers : Prompt take_wrappers :=
  .bind .get fun _ => .ite (.bind (prompt_skip _) fun _ => .pure _) (.pure _)

theorem prompt_descriptor (depth : ℕ) :
    (∀ ctx, Prompt (parse_descriptor depth ctx)) ∧ Prompt (parse_tap_tree depth) := by
  induction depth with
  | zero => exact ⟨fun _ => .throw _, .throw _⟩
  | succ depth ih =>
      obtain ⟨hdesc, htree⟩ := ih
      exact ⟨fun ctx => .bind prompt_wrappers fun _ => .bind (prompt_inner hdesc htree ctx)
          fun _ => .orElse _ _,
        .bind .get fun _ => .ite (.bind (prompt_skip _) fun _ => .bind htree fun _ =>
          .bind (prompt_expect _) fun _ => .bind htree fun _ => .bind (prompt_expect _)
            fun _ => .pure _) (.bind (hdesc _) fun _ => .pure _)⟩

theorem prompt_from_str : Prompt from_str :=
  .bind ((prompt_descriptor _).1 _) fun _ => .bind .get fun _ => .bind (.reject _ _)
    fun _ => .pure _

end Vanadium.Bip388
