import Mathlib.Data.List.GetD

/-! The instructions of the 65c02, and the tables of cpu-supp.c that give each opcode its handler
and its cycles. -/
namespace Apple2ix.Cpu
set_option autoImplicit false

/-- The addressing macros. `Stx` and `Sta` name those that do not count a page boundary. -/
inductive Mode
  | imm
  | zpage
  | zpageX
  | zpageY
  | abs
  | absX
  | absXStx
  | absY
  | absYSta
  | indX
  | indY
  | indYSta
  | indZpage
  deriving DecidableEq, Repr

/-- The handlers `op_…`, each with the addressing macro it uses. -/
inductive Op
  | adc (mode : Mode)
  | and (mode : Mode)
  | asl (mode : Mode)
  | aslAcc
  | bbr (bit : ℕ)
  | bbs (bit : ℕ)
  | bcc
  | bcs
  | beq
  | bit (mode : Mode)
  | bitImm
  | bmi
  | bne
  | bpl
  | bra
  | brk
  | bvc
  | bvs
  | clc
  | cld
  | cli
  | clv
  | cmp (mode : Mode)
  | cpx (mode : Mode)
  | cpy (mode : Mode)
  | dea
  | dec (mode : Mode)
  | dex
  | dey
  | eor (mode : Mode)
  | ina
  | inc (mode : Mode)
  | inx
  | iny
  | jmpAbs
  | jmpInd
  | jmpAbsIndX
  | jsr
  | lda (mode : Mode)
  | ldx (mode : Mode)
  | ldy (mode : Mode)
  | lsr (mode : Mode)
  | lsrAcc
  | nop
  | ora (mode : Mode)
  | pha
  | php
  | phx
  | phy
  | pla
  | plp
  | plx
  | ply
  | rmb (bit : ℕ)
  | rol (mode : Mode)
  | rolAcc
  | ror (mode : Mode)
  | rorAcc
  | rti
  | rts
  | sbc (mode : Mode)
  | sec
  | sed
  | sei
  | smb (bit : ℕ)
  | sta (mode : Mode)
  | stp65c02
  | stx (mode : Mode)
  | sty (mode : Mode)
  | stz (mode : Mode)
  | tax
  | tay
  | trb (mode : Mode)
  | tsb (mode : Mode)
  | tsx
  | txa
  | txs
  | tya
  | unk65c02
  | wai65c02
  deriving DecidableEq, Repr

/-- `cpu65__opcodes`, eight to a row. -/
def cpu65Opcodes : List Op :=
  [.brk, .ora .indX, .unk65c02, .unk65c02, .tsb .zpage, .ora .zpage, .asl .zpage, .rmb 0,
  .php, .ora .imm, .aslAcc, .unk65c02, .tsb .abs, .ora .abs, .asl .abs, .bbr 0,
  .bpl, .ora .indY, .ora .indZpage, .unk65c02, .trb .zpage, .ora .zpageX, .asl .zpageX, .rmb 1,
  .clc, .ora .absY, .ina, .unk65c02, .trb .abs, .ora .absX, .asl .absX, .bbr 1,
  .jsr, .and .indX, .unk65c02, .unk65c02, .bit .zpage, .and .zpage, .rol .zpage, .rmb 2,
  .plp, .and .imm, .rolAcc, .unk65c02, .bit .abs, .and .abs, .rol .abs, .bbr 2,
  .bmi, .and .indY, .and .indZpage, .unk65c02, .bit .zpageX, .and .zpageX, .rol .zpageX, .rmb 3,
  .sec, .and .absY, .dea, .unk65c02, .bit .absX, .and .absX, .rol .absX, .bbr 3,
  .rti, .eor .indX, .unk65c02, .unk65c02, .unk65c02, .eor .zpage, .lsr .zpage, .rmb 4,
  .pha, .eor .imm, .lsrAcc, .unk65c02, .jmpAbs, .eor .abs, .lsr .abs, .bbr 4,
  .bvc, .eor .indY, .eor .indZpage, .unk65c02, .unk65c02, .eor .zpageX, .lsr .zpageX, .rmb 5,
  .cli, .eor .absY, .phy, .unk65c02, .unk65c02, .eor .absX, .lsr .absX, .bbr 5,
  .rts, .adc .indX, .unk65c02, .unk65c02, .stz .zpage, .adc .zpage, .ror .zpage, .rmb 6,
  .pla, .adc .imm, .rorAcc, .unk65c02, .jmpInd, .adc .abs, .ror .abs, .bbr 6,
  .bvs, .adc .indY, .adc .indZpage, .unk65c02, .stz .zpageX, .adc .zpageX, .ror .zpageX, .rmb 7,
  .sei, .adc .absY, .ply, .unk65c02, .jmpAbsIndX, .adc .absX, .ror .absX, .bbr 7,
  .bra, .sta .indX, .unk65c02, .unk65c02, .sty .zpage, .sta .zpage, .stx .zpage, .smb 0,
  .dey, .bitImm, .txa, .unk65c02, .sty .abs, .sta .abs, .stx .abs, .bbs 0,
  .bcc, .sta .indYSta, .sta .indZpage, .unk65c02, .sty .zpageX, .sta .zpageX, .stx .zpageY, .smb 1,
  .tya, .sta .absYSta, .txs, .unk65c02, .stz .abs, .sta .absXStx, .stz .absXStx, .bbs 1,
  .ldy .imm, .lda .indX, .ldx .imm, .unk65c02, .ldy .zpage, .lda .zpage, .ldx .zpage, .smb 2,
  .tay, .lda .imm, .tax, .unk65c02, .ldy .abs, .lda .abs, .ldx .abs, .bbs 2,
  .bcs, .lda .indY, .lda .indZpage, .unk65c02, .ldy .zpageX, .lda .zpageX, .ldx .zpageY, .smb 3,
  .clv, .lda .absY, .tsx, .unk65c02, .ldy .absX, .lda .absX, .ldx .absY, .bbs 3,
  .cpy .imm, .cmp .indX, .unk65c02, .unk65c02, .cpy .zpage, .cmp .zpage, .dec .zpage, .smb 4,
  .iny, .cmp .imm, .dex, .wai65c02, .cpy .abs, .cmp .abs, .dec .abs, .bbs 4,
  .bne, .cmp .indY, .cmp .indZpage, .unk65c02, .unk65c02, .cmp .zpageX, .dec .zpageX, .smb 5,
  .cld, .cmp .absY, .phx, .stp65c02, .unk65c02, .cmp .absX, .dec .absXStx, .bbs 5,
  .cpx .imm, .sbc .indX, .unk65c02, .unk65c02, .cpx .zpage, .sbc .zpage, .inc .zpage, .smb 6,
  .inx, .sbc .imm, .nop, .unk65c02, .cpx .abs, .sbc .abs, .inc .abs, .bbs 6,
  .beq, .sbc .indY, .sbc .indZpage, .unk65c02, .unk65c02, .sbc .zpageX, .inc .zpageX, .smb 7,
  .sed, .sbc .absY, .plx, .unk65c02, .unk65c02, .sbc .absX, .inc .absXStx, .bbs 7]

/-- `cpu65__opcycles`, sixteen to a row. -/
def cpu65Opcycles : List UInt8 :=
  [7, 6, 7, 7, 5, 3, 5, 5, 3, 2, 2, 7, 6, 4, 6, 5,
   2, 5, 5, 7, 5, 4, 6, 5, 2, 4, 2, 7, 6, 4, 6, 5,
   6, 6, 7, 7, 3, 3, 5, 5, 4, 2, 2, 7, 4, 4, 6, 5,
   2, 5, 5, 7, 4, 4, 6, 5, 2, 4, 2, 7, 4, 4, 6, 5,
   6, 6, 7, 7, 7, 3, 5, 5, 3, 2, 2, 7, 3, 4, 6, 5,
   2, 5, 5, 7, 7, 4, 6, 5, 2, 4, 3, 7, 7, 4, 6, 5,
   6, 6, 7, 7, 3, 3, 5, 5, 4, 2, 2, 7, 6, 4, 6, 5,
   2, 5, 5, 7, 4, 4, 6, 5, 2, 4, 4, 7, 6, 4, 6, 5,
   2, 6, 7, 7, 3, 3, 3, 5, 2, 2, 2, 7, 4, 4, 4, 5,
   2, 6, 5, 7, 4, 4, 4, 5, 2, 5, 2, 7, 4, 5, 5, 5,
   2, 6, 2, 7, 3, 3, 3, 5, 2, 2, 2, 7, 4, 4, 4, 5,
   2, 5, 5, 7, 4, 4, 4, 5, 2, 4, 2, 7, 4, 4, 4, 5,
   2, 6, 7, 7, 3, 3, 5, 5, 2, 2, 2, 7, 4, 4, 6, 5,
   2, 5, 5, 7, 7, 4, 6, 5, 2, 4, 3, 7, 7, 4, 7, 5,
   2, 6, 7, 7, 3, 3, 5, 5, 2, 2, 2, 7, 4, 4, 6, 5,
   2, 5, 5, 7, 7, 4, 6, 5, 2, 4, 4, 7, 7, 4, 7, 5]

/-- The entry of an opcode; both tables have 256. -/
def handlerOf (opcode : UInt8) : Op := cpu65Opcodes.getD opcode.toNat .nop
def cyclesOf (opcode : UInt8) : UInt8 := cpu65Opcycles.getD opcode.toNat 0

theorem cpu65_tables_length : cpu65Opcodes.length = 256 ∧ cpu65Opcycles.length = 256 := by
  decide +kernel

end Apple2ix.Cpu
