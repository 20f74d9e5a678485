import Mathlib.Data.Nat.Notation

/-!
# The characters of the VESA driver

The bitmaps of `chars.c`, 14 pixels wide and 26 high; a row takes two bytes.
-/

namespace Camkes.Aeroplage

def aBits : List UInt8 := [
  0x00, 0x00, 0x00, 0x00, 0x00, 0x00, 0x00, 0x00, 0x00, 0x00, 0x00, 0x00, 0x00, 0x00, 0x00, 0x00,
  0x00, 0x00, 0xF0, 0x00, 0x8C, 0x01, 0x00, 0x03, 0x60, 0x03, 0xFC, 0x03, 0x06, 0x03, 0x03, 0x02,
  0x82, 0x03, 0xDE, 0x07, 0x28, 0x06, 0x00, 0x00, 0x00, 0x00, 0x00, 0x00, 0x00, 0x00, 0x00, 0x00,
  0x00, 0x00, 0x00, 0x00]

def bBits : List UInt8 := [
  0x00, 0x00, 0x00, 0x00, 0x00, 0x00, 0x00, 0x00, 0x00, 0x00, 0x06, 0x00, 0x0C, 0x00, 0x04, 0x00,
  0x04, 0x00, 0xEC, 0x01, 0x3C, 0x07, 0x0C, 0x04, 0x0C, 0x04, 0x04, 0x0C, 0x0C, 0x0C, 0x0C, 0x04,
  0x1C, 0x06, 0xFE, 0x03, 0x42, 0x00, 0x00, 0x00, 0x00, 0x00, 0x00, 0x00, 0x00, 0x00, 0x00, 0x00,
  0x00, 0x00, 0x00, 0x00]

def cBits : List UInt8 := [
  0x00, 0x00, 0x00, 0x00, 0x00, 0x00, 0x00, 0x00, 0x00, 0x00, 0x00, 0x00, 0x00, 0x00, 0x00, 0x00,
  0x00, 0x00, 0xF8, 0x02, 0x8E, 0x03, 0x02, 0x03, 0x03, 0x00, 0x01, 0x00, 0x01, 0x00, 0x03, 0x00,
  0x06, 0x03, 0xFE, 0x01, 0x30, 0x00, 0x00, 0x00, 0x00, 0x00, 0x00, 0x00, 0x00, 0x00, 0x00, 0x00,
  0x00, 0x00, 0x00, 0x00]

def dBits : List UInt8 := [
  0x00, 0x00, 0x00, 0x00, 0x00, 0x00, 0x00, 0x00, 0x00, 0x00, 0x00, 0x07, 0x00, 0x06, 0x00, 0x06,
  0x00, 0x06, 0xF0, 0x04, 0xAC, 0x07, 0x06, 0x07, 0x06, 0x06, 0x02, 0x06, 0x02, 0x06, 0x02, 0x06,
  0x06, 0x07, 0xFC, 0x0F, 0x60, 0x0C, 0x00, 0x00, 0x00, 0x00, 0x00, 0x00, 0x00, 0x00, 0x00, 0x00,
  0x00, 0x00, 0x00, 0x00]

def eBits : List UInt8 := [
  0x00, 0x00, 0x00, 0x00, 0x00, 0x00, 0x00, 0x00, 0x00, 0x00, 0x00, 0x00, 0x00, 0x00, 0x00, 0x00,
  0x00, 0x00, 0xF8, 0x00, 0x8C, 0x01, 0x03, 0x03, 0x03, 0x02, 0xFF, 0x07, 0x69, 0x01, 0x03, 0x00,
  0x06, 0x02, 0xDE, 0x03, 0x60, 0x00, 0x00, 0x00, 0x00, 0x00, 0x00, 0x00, 0x00, 0x00, 0x00, 0x00,
  0x00, 0x00, 0x00, 0x00]

def fBits : List UInt8 := [
  0x00, 0x00, 0x00, 0x00, 0x00, 0x00, 0x00, 0x00, 0x00, 0x00, 0xE0, 0x07, 0x30, 0x00, 0x10, 0x00,
  0x10, 0x00, 0xFE, 0x03, 0x38, 0x00, 0x10, 0x00, 0x10, 0x00, 0x18, 0x00, 0x10, 0x00, 0x10, 0x00,
  0x10, 0x00, 0xBA, 0x01, 0xEA, 0x01, 0x00, 0x00, 0x00, 0x00, 0x00, 0x00, 0x00, 0x00, 0x00, 0x00,
  0x00, 0x00, 0x00, 0x00]

def gBits : List UInt8 := [
  0x00, 0x00, 0x00, 0x00, 0x00, 0x00, 0x00, 0x00, 0x00, 0x00, 0x00, 0x00, 0x00, 0x00, 0x00, 0x00,
  0x00, 0x00, 0x78, 0x06, 0xCC, 0x07, 0x06, 0x03, 0x02, 0x03, 0x02, 0x02, 0x02, 0x03, 0x06, 0x03,
  0x86, 0x03, 0xFC, 0x02, 0x20, 0x03, 0x00, 0x02, 0x00, 0x01, 0xE0, 0x01, 0x78, 0x00, 0x00, 0x00,
  0x00, 0x00, 0x00, 0x00]

def hBits : List UInt8 := [
  0x00, 0x00, 0x00, 0x00, 0x00, 0x00, 0x00, 0x00, 0x00, 0x00, 0x06, 0x00, 0x0C, 0x00, 0x04, 0x00,
  0x0C, 0x00, 0xE4, 0x00, 0xBC, 0x01, 0x0C, 0x03, 0x04, 0x02, 0x0C, 0x02, 0x04, 0x02, 0x0C, 0x02,
  0x04, 0x02, 0x0C, 0x07, 0x1E, 0x05, 0x00, 0x00, 0x00, 0x00, 0x00, 0x00, 0x00, 0x00, 0x00, 0x00,
  0x00, 0x00, 0x00, 0x00]

def iBits : List UInt8 := [
  0x00, 0x00, 0x00, 0x00, 0x00, 0x00, 0x00, 0x00, 0x00, 0x00, 0x20, 0x00, 0x30, 0x00, 0x00, 0x00,
  0x00, 0x00, 0x3C, 0x00, 0x30, 0x00, 0x20, 0x00, 0x30, 0x00, 0x20, 0x00, 0x30, 0x00, 0x20, 0x00,
  0x20, 0x00, 0xFA, 0x03, 0x7A, 0x01, 0x00, 0x00, 0x00, 0x00, 0x00, 0x00, 0x00, 0x00, 0x00, 0x00,
  0x00, 0x00, 0x00, 0x00]

def jBits : List UInt8 := [
  0x00, 0x00, 0x00, 0x00, 0x00, 0x00, 0x00, 0x00, 0x00, 0x00, 0x40, 0x00, 0x40, 0x00, 0x40, 0x00,
  0x00, 0x00, 0xFE, 0x01, 0x82, 0x01, 0x00, 0x01, 0x00, 0x01, 0x00, 0x01, 0x80, 0x01, 0x00, 0x01,
  0x00, 0x01, 0x00, 0x01, 0x00, 0x01, 0x00, 0x01, 0x80, 0x01, 0xD2, 0x00, 0x3E, 0x00, 0x00, 0x00,
  0x00, 0x00, 0x00, 0x00]

def kBits : List UInt8 := [
  0x00, 0x00, 0x00, 0x00, 0x00, 0x00, 0x00, 0x00, 0x00, 0x00, 0x0E, 0x00, 0x0C, 0x00, 0x08, 0x00,
  0x0C, 0x00, 0xC8, 0x03, 0xC4, 0x01, 0x4C, 0x00, 0x3C, 0x00, 0x38, 0x00, 0x6C, 0x00, 0xCC, 0x00,
  0x8C, 0x03, 0x0E, 0x07, 0x02, 0x05, 0x00, 0x00, 0x00, 0x00, 0x00, 0x00, 0x00, 0x00, 0x00, 0x00,
  0x00, 0x00, 0x00, 0x00]

def lBits : List UInt8 := [
  0x00, 0x00, 0x00, 0x00, 0x00, 0x00, 0x00, 0x00, 0x00, 0x00, 0x3E, 0x00, 0x30, 0x00, 0x10, 0x00,
  0x30, 0x00, 0x10, 0x00, 0x10, 0x00, 0x30, 0x00, 0x30, 0x00, 0x10, 0x00, 0x30, 0x00, 0x10, 0x00,
  0x30, 0x00, 0xBA, 0x01, 0xEB, 0x01, 0x00, 0x00, 0x00, 0x00, 0x00, 0x00, 0x00, 0x00, 0x00, 0x00,
  0x00, 0x00, 0x00, 0x00]

def mBits : List UInt8 := [
  0x00, 0x00, 0x00, 0x00, 0x00, 0x00, 0x00, 0x00, 0x00, 0x00, 0x00, 0x00, 0x00, 0x00, 0x00, 0x00,
  0x00, 0x00, 0x9B, 0x03, 0xFE, 0x06, 0x66, 0x04, 0x22, 0x04, 0x62, 0x04, 0x66, 0x04, 0x22, 0x04,
  0x26, 0x04, 0x66, 0x0C, 0x43, 0x08, 0x00, 0x00, 0x00, 0x00, 0x00, 0x00, 0x00, 0x00, 0x00, 0x00,
  0x00, 0x00, 0x00, 0x00]

def nBits : List UInt8 := [
  0x00, 0x00, 0x00, 0x00, 0x00, 0x00, 0x00, 0x00, 0x00, 0x00, 0x00, 0x00, 0x00, 0x00, 0x00, 0x00,
  0x00, 0x00, 0xFE, 0x00, 0x8E, 0x01, 0x06, 0x01, 0x06, 0x01, 0x04, 0x01, 0x06, 0x03, 0x04, 0x01,
  0x04, 0x01, 0x0F, 0x03, 0x86, 0x01, 0x00, 0x00, 0x00, 0x00, 0x00, 0x00, 0x00, 0x00, 0x00, 0x00,
  0x00, 0x00, 0x00, 0x00]

def oBits : List UInt8 := [
  0x00, 0x00, 0x00, 0x00, 0x00, 0x00, 0x00, 0x00, 0x00, 0x00, 0x00, 0x00, 0x00, 0x00, 0x00, 0x00,
  0x00, 0x00, 0xF0, 0x00, 0x9C, 0x03, 0x06, 0x06, 0x06, 0x0C, 0x02, 0x04, 0x02, 0x0C, 0x06, 0x04,
  0x0C, 0x06, 0xF8, 0x03, 0xA0, 0x00, 0x00, 0x00, 0x00, 0x00, 0x00, 0x00, 0x00, 0x00, 0x00, 0x00,
  0x00, 0x00, 0x00, 0x00]

def pBits : List UInt8 := [
  0x00, 0x00, 0x00, 0x00, 0x00, 0x00, 0x00, 0x00, 0x00, 0x00, 0x00, 0x00, 0x00, 0x00, 0x00, 0x00,
  0x00, 0x00, 0xEE, 0x01, 0xBC, 0x07, 0x0C, 0x04, 0x0C, 0x04, 0x0C, 0x0C, 0x04, 0x0C, 0x0C, 0x04,
  0x1C, 0x06, 0xF4, 0x03, 0xCC, 0x00, 0x04, 0x00, 0x04, 0x00, 0x1E, 0x00, 0x3E, 0x00, 0x00, 0x00,
  0x00, 0x00, 0x00, 0x00]

def qBits : List UInt8 := [
  0x00, 0x00, 0x00, 0x00, 0x00, 0x00, 0x00, 0x00, 0x00, 0x00, 0x00, 0x00, 0x00, 0x00, 0x00, 0x00,
  0x00, 0x00, 0xF0, 0x1C, 0xAC, 0x07, 0x06, 0x07, 0x06, 0x06, 0x02, 0x06, 0x02, 0x06, 0x06, 0x06,
  0x04, 0x07, 0xFC, 0x05, 0x60, 0x06, 0x00, 0x06, 0x00, 0x06, 0x00, 0x06, 0x80, 0x0F, 0x00, 0x00,
  0x00, 0x00, 0x00, 0x00]

def rBits : List UInt8 := [
  0x00, 0x00, 0x00, 0x00, 0x00, 0x00, 0x00, 0x00, 0x00, 0x00, 0x00, 0x00, 0x00, 0x00, 0x00, 0x00,
  0x00, 0x00, 0x8E, 0x03, 0xF8, 0x06, 0x38, 0x00, 0x18, 0x00, 0x18, 0x00, 0x08, 0x00, 0x18, 0x00,
  0x08, 0x00, 0xBE, 0x00, 0xFE, 0x01, 0x00, 0x00, 0x00, 0x00, 0x00, 0x00, 0x00, 0x00, 0x00, 0x00,
  0x00, 0x00, 0x00, 0x00]

def sBits : List UInt8 := [
  0x00, 0x00, 0x00, 0x00, 0x00, 0x00, 0x00, 0x00, 0x00, 0x00, 0x00, 0x00, 0x00, 0x00, 0x00, 0x00,
  0x00, 0x00, 0x7C, 0x01, 0xCE, 0x01, 0x02, 0x01, 0x06, 0x00, 0xFC, 0x00, 0x80, 0x03, 0x01, 0x02,
  0x03, 0x01, 0xFF, 0x01, 0x69, 0x00, 0x00, 0x00, 0x00, 0x00, 0x00, 0x00, 0x00, 0x00, 0x00, 0x00,
  0x00, 0x00, 0x00, 0x00]

def tBits : List UInt8 := [
  0x00, 0x00, 0x00, 0x00, 0x00, 0x00, 0x00, 0x00, 0x00, 0x00, 0x00, 0x00, 0x00, 0x00, 0x0C, 0x00,
  0x0C, 0x00, 0xFF, 0x00, 0x14, 0x00, 0x0C, 0x00, 0x0C, 0x00, 0x04, 0x00, 0x04, 0x00, 0x0C, 0x00,
  0x0C, 0x00, 0xF8, 0x03, 0xA0, 0x00, 0x00, 0x00, 0x00, 0x00, 0x00, 0x00, 0x00, 0x00, 0x00, 0x00,
  0x00, 0x00, 0x00, 0x00]

def uBits : List UInt8 := [
  0x00, 0x00, 0x00, 0x00, 0x00, 0x00, 0x00, 0x00, 0x00, 0x00, 0x00, 0x00, 0x00, 0x00, 0x00, 0x00,
  0x00, 0x00, 0x86, 0x03, 0x0C, 0x02, 0x04, 0x02, 0x0C, 0x02, 0x04, 0x02, 0x04, 0x02, 0x0C, 0x03,
  0x0C, 0x03, 0xF8, 0x07, 0x30, 0x06, 0x00, 0x00, 0x00, 0x00, 0x00, 0x00, 0x00, 0x00, 0x00, 0x00,
  0x00, 0x00, 0x00, 0x00]

def vBits : List UInt8 := [
  0x00, 0x00, 0x00, 0x00, 0x00, 0x00, 0x00, 0x00, 0x00, 0x00, 0x00, 0x00, 0x00, 0x00, 0x00, 0x00,
  0x00, 0x00, 0xCF, 0x07, 0x06, 0x03, 0x04, 0x01, 0x8C, 0x01, 0x88, 0x00, 0xC8, 0x00, 0x48, 0x00,
  0x50, 0x00, 0x70, 0x00, 0x20, 0x00, 0x00, 0x00, 0x00, 0x00, 0x00, 0x00, 0x00, 0x00, 0x00, 0x00,
  0x00, 0x00, 0x00, 0x00]

def wBits : List UInt8 := [
  0x00, 0x00, 0x00, 0x00, 0x00, 0x00, 0x00, 0x00, 0x00, 0x00, 0x00, 0x00, 0x00, 0x00, 0x00, 0x00,
  0x00, 0x00, 0x07, 0x07, 0x06, 0x04, 0x02, 0x06, 0x72, 0x02, 0x76, 0x02, 0x50, 0x02, 0x9C, 0x03,
  0x8C, 0x03, 0x8C, 0x01, 0x08, 0x00, 0x00, 0x00, 0x00, 0x00, 0x00, 0x00, 0x00, 0x00, 0x00, 0x00,
  0x00, 0x00, 0x00, 0x00]

def xBits : List UInt8 := [
  0x00, 0x00, 0x00, 0x00, 0x00, 0x00, 0x00, 0x00, 0x00, 0x00, 0x00, 0x00, 0x00, 0x00, 0x00, 0x00,
  0x00, 0x00, 0x8E, 0x03, 0x8E, 0x01, 0xCC, 0x00, 0x78, 0x00, 0x30, 0x00, 0x70, 0x00, 0xC8, 0x00,
  0x84, 0x01, 0x87, 0x03, 0x8B, 0x03, 0x00, 0x00, 0x00, 0x00, 0x00, 0x00, 0x00, 0x00, 0x00, 0x00,
  0x00, 0x00, 0x00, 0x00]

def yBits : List UInt8 := [
  0x00, 0x00, 0x00, 0x00, 0x00, 0x00, 0x00, 0x00, 0x00, 0x00, 0x00, 0x00, 0x00, 0x00, 0x00, 0x00,
  0x00, 0x00, 0x0F, 0x07, 0x06, 0x03, 0x04, 0x01, 0x0C, 0x01, 0x88, 0x01, 0x98, 0x00, 0x90, 0x00,
  0x70, 0x00, 0x60, 0x00, 0x20, 0x00, 0x30, 0x00, 0x10, 0x00, 0x3A, 0x00, 0x3F, 0x00, 0x00, 0x00,
  0x00, 0x00, 0x00, 0x00]

def zBits : List UInt8 := [
  0x00, 0x00, 0x00, 0x00, 0x00, 0x00, 0x00, 0x00, 0x00, 0x00, 0x00, 0x00, 0x00, 0x00, 0x00, 0x00,
  0x00, 0x00, 0xFF, 0x01, 0xA3, 0x01, 0xC1, 0x00, 0x60, 0x00, 0x30, 0x00, 0x18, 0x00, 0x0C, 0x00,
  0x06, 0x03, 0x97, 0x01, 0xEB, 0x01, 0x00, 0x00, 0x00, 0x00, 0x00, 0x00, 0x00, 0x00, 0x00, 0x00,
  0x00, 0x00, 0x00, 0x00]

def ABits : List UInt8 := [
  0x00, 0x00, 0x00, 0x00, 0x00, 0x00, 0x00, 0x00, 0x00, 0x00, 0x00, 0x00, 0x7C, 0x00, 0xF0, 0x00,
  0xD0, 0x00, 0x90, 0x00, 0x88, 0x00, 0x08, 0x01, 0x08, 0x01, 0xFC, 0x01, 0x6C, 0x03, 0x04, 0x02,
  0x02, 0x02, 0x0F, 0x07, 0x06, 0x05, 0x00, 0x00, 0x00, 0x00, 0x00, 0x00, 0x00, 0x00, 0x00, 0x00,
  0x00, 0x00, 0x00, 0x00]

def BBits : List UInt8 := [
  0x00, 0x00, 0x00, 0x00, 0x00, 0x00, 0x00, 0x00, 0x00, 0x00, 0x00, 0x00, 0xFE, 0x01, 0x8C, 0x03,
  0x04, 0x04, 0x0C, 0x06, 0x04, 0x06, 0x9C, 0x03, 0xFC, 0x03, 0x04, 0x06, 0x0C, 0x0C, 0x04, 0x08,
  0x0C, 0x04, 0x9E, 0x07, 0xFA, 0x01, 0x00, 0x00, 0x00, 0x00, 0x00, 0x00, 0x00, 0x00, 0x00, 0x00,
  0x00, 0x00, 0x00, 0x00]

def CBits : List UInt8 := [
  0x00, 0x00, 0x00, 0x00, 0x00, 0x00, 0x00, 0x00, 0x00, 0x00, 0x00, 0x00, 0xF8, 0x05, 0x1C, 0x07,
  0x04, 0x06, 0x06, 0x00, 0x02, 0x00, 0x03, 0x00, 0x02, 0x00, 0x06, 0x00, 0x02, 0x00, 0x06, 0x00,
  0x0C, 0x06, 0xF8, 0x01, 0x20, 0x00, 0x00, 0x00, 0x00, 0x00, 0x00, 0x00, 0x00, 0x00, 0x00, 0x00,
  0x00, 0x00, 0x00, 0x00]

def DBits : List UInt8 := [
  0x00, 0x00, 0x00, 0x00, 0x00, 0x00, 0x00, 0x00, 0x00, 0x00, 0x00, 0x00, 0xFF, 0x00, 0x86, 0x01,
  0x06, 0x01, 0x04, 0x02, 0x02, 0x02, 0x04, 0x02, 0x04, 0x02, 0x06, 0x02, 0x02, 0x02, 0x04, 0x03,
  0x86, 0x01, 0xD6, 0x00, 0x2E, 0x00, 0x00, 0x00, 0x00, 0x00, 0x00, 0x00, 0x00, 0x00, 0x00, 0x00,
  0x00, 0x00, 0x00, 0x00]

def EBits : List UInt8 := [
  0x00, 0x00, 0x00, 0x00, 0x00, 0x00, 0x00, 0x00, 0x00, 0x00, 0x80, 0x00, 0xFE, 0x07, 0x0C, 0x06,
  0x04, 0x04, 0x0C, 0x00, 0x84, 0x00, 0xDC, 0x00, 0xFC, 0x00, 0x84, 0x00, 0x0C, 0x08, 0x04, 0x08,
  0x04, 0x08, 0xBE, 0x0F, 0xEA, 0x05, 0x00, 0x00, 0x00, 0x00, 0x00, 0x00, 0x00, 0x00, 0x00, 0x00,
  0x00, 0x00, 0x00, 0x00]

def FBits : List UInt8 := [
  0x00, 0x00, 0x00, 0x00, 0x00, 0x00, 0x00, 0x00, 0x00, 0x00, 0x80, 0x00, 0xFE, 0x07, 0x0C, 0x06,
  0x04, 0x04, 0x0C, 0x00, 0x84, 0x00, 0xDC, 0x00, 0xFC, 0x00, 0x84, 0x00, 0x0C, 0x00, 0x04, 0x00,
  0x04, 0x00, 0x3E, 0x00, 0x7A, 0x00, 0x00, 0x00, 0x00, 0x00, 0x00, 0x00, 0x00, 0x00, 0x00, 0x00,
  0x00, 0x00, 0x00, 0x00]

def GBits : List UInt8 := [
  0x00, 0x00, 0x00, 0x00, 0x00, 0x00, 0x00, 0x00, 0x00, 0x00, 0x00, 0x00, 0xF0, 0x07, 0x1C, 0x06,
  0x04, 0x06, 0x06, 0x00, 0x02, 0x00, 0x03, 0x00, 0x02, 0x00, 0xC3, 0x07, 0x02, 0x07, 0x06, 0x04,
  0x0C, 0x06, 0xB8, 0x03, 0xD0, 0x00, 0x00, 0x00, 0x00, 0x00, 0x00, 0x00, 0x00, 0x00, 0x00, 0x00,
  0x00, 0x00, 0x00, 0x00]

def HBits : List UInt8 := [
  0x00, 0x00, 0x00, 0x00, 0x00, 0x00, 0x00, 0x00, 0x00, 0x00, 0x00, 0x00, 0x8E, 0x03, 0x06, 0x01,
  0x04, 0x03, 0x04, 0x01, 0x06, 0x01, 0x5C, 0x03, 0xFC, 0x01, 0x06, 0x01, 0x06, 0x03, 0x04, 0x01,
  0x04, 0x01, 0x87, 0x07, 0x8E, 0x01, 0x00, 0x00, 0x00, 0x00, 0x00, 0x00, 0x00, 0x00, 0x00, 0x00,
  0x00, 0x00, 0x00, 0x00]

def IBits : List UInt8 := [
  0x00, 0x00, 0x00, 0x00, 0x00, 0x00, 0x00, 0x00, 0x00, 0x00, 0x40, 0x00, 0xFE, 0x03, 0x30, 0x00,
  0x20, 0x00, 0x30, 0x00, 0x20, 0x00, 0x30, 0x00, 0x30, 0x00, 0x20, 0x00, 0x30, 0x00, 0x20, 0x00,
  0x20, 0x00, 0xF6, 0x01, 0xAA, 0x01, 0x00, 0x00, 0x00, 0x00, 0x00, 0x00, 0x00, 0x00, 0x00, 0x00,
  0x00, 0x00, 0x00, 0x00]

def JBits : List UInt8 := [
  0x00, 0x00, 0x00, 0x00, 0x00, 0x00, 0x00, 0x00, 0x00, 0x00, 0x00, 0x02, 0xF0, 0x07, 0x80, 0x01,
  0x80, 0x01, 0x00, 0x01, 0x00, 0x01, 0x00, 0x01, 0x80, 0x01, 0x01, 0x01, 0x01, 0x01, 0x01, 0x01,
  0x83, 0x00, 0x7E, 0x00, 0x38, 0x00, 0x00, 0x00, 0x00, 0x00, 0x00, 0x00, 0x00, 0x00, 0x00, 0x00,
  0x00, 0x00, 0x00, 0x00]

def KBits : List UInt8 := [
  0x00, 0x00, 0x00, 0x00, 0x00, 0x00, 0x00, 0x00, 0x00, 0x00, 0x00, 0x00, 0x3E, 0x0F, 0x0C, 0x07,
  0x0C, 0x03, 0xC4, 0x00, 0xE8, 0x00, 0x7C, 0x00, 0xDC, 0x00, 0x0C, 0x01, 0x04, 0x03, 0x0C, 0x02,
  0x04, 0x06, 0x1E, 0x0C, 0x1A, 0x18, 0x00, 0x00, 0x00, 0x00, 0x00, 0x00, 0x00, 0x00, 0x00, 0x00,
  0x00, 0x00, 0x00, 0x00]

def LBits : List UInt8 := [
  0x00, 0x00, 0x00, 0x00, 0x00, 0x00, 0x00, 0x00, 0x00, 0x00, 0x08, 0x00, 0x7E, 0x00, 0x18, 0x00,
  0x18, 0x00, 0x08, 0x00, 0x18, 0x00, 0x18, 0x00, 0x08, 0x00, 0x18, 0x00, 0x08, 0x08, 0x18, 0x0C,
  0x08, 0x04, 0xBE, 0x0D, 0xFE, 0x07, 0x00, 0x00, 0x00, 0x00, 0x00, 0x00, 0x00, 0x00, 0x00, 0x00,
  0x00, 0x00, 0x00, 0x00]

def MBits : List UInt8 := [
  0x00, 0x00, 0x00, 0x00, 0x00, 0x00, 0x00, 0x00, 0x00, 0x00, 0x00, 0x00, 0x0E, 0x0E, 0x0E, 0x06,
  0x0A, 0x07, 0x1C, 0x05, 0x96, 0x04, 0x90, 0x04, 0xE2, 0x04, 0x62, 0x04, 0x46, 0x04, 0x02, 0x04,
  0x02, 0x04, 0x0E, 0x0E, 0x06, 0x06, 0x00, 0x00, 0x00, 0x00, 0x00, 0x00, 0x00, 0x00, 0x00, 0x00,
  0x00, 0x00, 0x00, 0x00]

def NBits : List UInt8 := [
  0x00, 0x00, 0x00, 0x00, 0x00, 0x00, 0x00, 0x00, 0x00, 0x00, 0x08, 0x00, 0x0E, 0x0F, 0x1C, 0x06,
  0x1C, 0x04, 0x24, 0x04, 0x2C, 0x06, 0x64, 0x04, 0xC4, 0x04, 0x8C, 0x04, 0x84, 0x05, 0x04, 0x07,
  0x04, 0x07, 0x1C, 0x07, 0x1A, 0x00, 0x00, 0x00, 0x00, 0x00, 0x00, 0x00, 0x00, 0x00, 0x00, 0x00,
  0x00, 0x00, 0x00, 0x00]

def OBits : List UInt8 := [
  0x00, 0x00, 0x00, 0x00, 0x00, 0x00, 0x00, 0x00, 0x00, 0x00, 0x00, 0x00, 0xFC, 0x00, 0xCC, 0x01,
  0x02, 0x03, 0x03, 0x02, 0x03, 0x06, 0x01, 0x04, 0x01, 0x06, 0x03, 0x04, 0x03, 0x06, 0x02, 0x02,
  0x06, 0x03, 0xFC, 0x00, 0x60, 0x00, 0x00, 0x00, 0x00, 0x00, 0x00, 0x00, 0x00, 0x00, 0x00, 0x00,
  0x00, 0x00, 0x00, 0x00]

def PBits : List UInt8 := [
  0x00, 0x00, 0x00, 0x00, 0x00, 0x00, 0x00, 0x00, 0x00, 0x00, 0x04, 0x00, 0xFE, 0x01, 0x8C, 0x03,
  0x0C, 0x06, 0x04, 0x04, 0x04, 0x06, 0x0C, 0x02, 0xFC, 0x01, 0x6C, 0x00, 0x04, 0x00, 0x0C, 0x00,
  0x04, 0x00, 0x3E, 0x00, 0x7E, 0x00, 0x00, 0x00, 0x00, 0x00, 0x00, 0x00, 0x00, 0x00, 0x00, 0x00,
  0x00, 0x00, 0x00, 0x00]

def QBits : List UInt8 := [
  0x00, 0x00, 0x00, 0x00, 0x00, 0x00, 0x00, 0x00, 0x00, 0x00, 0x00, 0x00, 0xF8, 0x00, 0x8C, 0x01,
  0x02, 0x03, 0x03, 0x02, 0x01, 0x06, 0x01, 0x04, 0x01, 0x04, 0x03, 0x04, 0x03, 0x06, 0x02, 0x03,
  0x06, 0x01, 0xDC, 0x01, 0x78, 0x00, 0x78, 0x04, 0xBC, 0x03, 0x00, 0x00, 0x00, 0x00, 0x00, 0x00,
  0x00, 0x00, 0x00, 0x00]

def RBits : List UInt8 := [
  0x00, 0x00, 0x00, 0x00, 0x00, 0x00, 0x00, 0x00, 0x00, 0x00, 0x10, 0x00, 0xFE, 0x01, 0x0C, 0x03,
  0x0C, 0x06, 0x04, 0x04, 0x04, 0x06, 0xDC, 0x03, 0xFC, 0x01, 0x8C, 0x01, 0x04, 0x03, 0x04, 0x02,
  0x0C, 0x04, 0x1E, 0x0C, 0x1A, 0x18, 0x00, 0x00, 0x00, 0x00, 0x00, 0x00, 0x00, 0x00, 0x00, 0x00,
  0x00, 0x00, 0x00, 0x00]

def SBits : List UInt8 := [
  0x00, 0x00, 0x00, 0x00, 0x00, 0x00, 0x00, 0x00, 0x00, 0x00, 0x00, 0x00, 0xF8, 0x03, 0x8E, 0x03,
  0x02, 0x03, 0x02, 0x00, 0x06, 0x00, 0x5C, 0x00, 0xE0, 0x01, 0x00, 0x01, 0x01, 0x03, 0x01, 0x02,
  0x03, 0x01, 0xFF, 0x01, 0x61, 0x00, 0x00, 0x00, 0x00, 0x00, 0x00, 0x00, 0x00, 0x00, 0x00, 0x00,
  0x00, 0x00, 0x00, 0x00]

def TBits : List UInt8 := [
  0x00, 0x00, 0x00, 0x00, 0x00, 0x00, 0x00, 0x00, 0x00, 0x00, 0x08, 0x00, 0xFE, 0x0F, 0x62, 0x04,
  0x22, 0x04, 0x60, 0x00, 0x20, 0x00, 0x20, 0x00, 0x20, 0x00, 0x60, 0x00, 0x20, 0x00, 0x20, 0x00,
  0x20, 0x00, 0xF0, 0x01, 0xA8, 0x01, 0x00, 0x00, 0x00, 0x00, 0x00, 0x00, 0x00, 0x00, 0x00, 0x00,
  0x00, 0x00, 0x00, 0x00]

def UBits : List UInt8 := [
  0x00, 0x00, 0x00, 0x00, 0x00, 0x00, 0x00, 0x00, 0x00, 0x00, 0x00, 0x00, 0x8F, 0x07, 0x06, 0x03,
  0x06, 0x02, 0x02, 0x02, 0x06, 0x02, 0x04, 0x02, 0x04, 0x02, 0x06, 0x02, 0x06, 0x02, 0x04, 0x03,
  0x0C, 0x03, 0xD8, 0x00, 0x60, 0x00, 0x00, 0x00, 0x00, 0x00, 0x00, 0x00, 0x00, 0x00, 0x00, 0x00,
  0x00, 0x00, 0x00, 0x00]

def VBits : List UInt8 := [
  0x00, 0x00, 0x00, 0x00, 0x00, 0x00, 0x00, 0x00, 0x00, 0x00, 0x00, 0x02, 0x0F, 0x0F, 0x06, 0x02,
  0x04, 0x02, 0x04, 0x02, 0x0C, 0x03, 0x08, 0x01, 0x88, 0x01, 0x88, 0x00, 0x90, 0x00, 0xD0, 0x00,
  0x70, 0x00, 0x60, 0x00, 0x60, 0x00, 0x00, 0x00, 0x00, 0x00, 0x00, 0x00, 0x00, 0x00, 0x00, 0x00,
  0x00, 0x00, 0x00, 0x00]

def WBits : List UInt8 := [
  0x00, 0x00, 0x00, 0x00, 0x00, 0x00, 0x00, 0x00, 0x00, 0x00, 0x00, 0x00, 0x0F, 0x0F, 0x06, 0x06,
  0x02, 0x04, 0x62, 0x06, 0x63, 0x04, 0x72, 0x02, 0x54, 0x02, 0xD6, 0x02, 0x96, 0x02, 0x8C, 0x03,
  0x8C, 0x03, 0x0C, 0x03, 0x04, 0x00, 0x00, 0x00, 0x00, 0x00, 0x00, 0x00, 0x00, 0x00, 0x00, 0x00,
  0x00, 0x00, 0x00, 0x00]

def XBits : List UInt8 := [
  0x00, 0x00, 0x00, 0x00, 0x00, 0x00, 0x00, 0x00, 0x00, 0x00, 0x00, 0x00, 0x07, 0x07, 0x06, 0x03,
  0x88, 0x01, 0x88, 0x00, 0x70, 0x00, 0x70, 0x00, 0x70, 0x00, 0xD0, 0x00, 0x98, 0x00, 0x0C, 0x01,
  0x04, 0x01, 0x07, 0x07, 0x0B, 0x05, 0x00, 0x00, 0x00, 0x00, 0x00, 0x00, 0x00, 0x00, 0x00, 0x00,
  0x00, 0x00, 0x00, 0x00]

def YBits : List UInt8 := [
  0x00, 0x00, 0x00, 0x00, 0x00, 0x00, 0x00, 0x00, 0x00, 0x00, 0x00, 0x00, 0x07, 0x07, 0x06, 0x03,
  0x84, 0x01, 0x88, 0x00, 0x58, 0x00, 0x70, 0x00, 0x30, 0x00, 0x20, 0x00, 0x20, 0x00, 0x20, 0x00,
  0x20, 0x00, 0xF8, 0x01, 0xA8, 0x00, 0x00, 0x00, 0x00, 0x00, 0x00, 0x00, 0x00, 0x00, 0x00, 0x00,
  0x00, 0x00, 0x00, 0x00]

def ZBits : List UInt8 := [
  0x00, 0x00, 0x00, 0x00, 0x00, 0x00, 0x00, 0x00, 0x00, 0x00, 0x88, 0x00, 0xFE, 0x03, 0x02, 0x01,
  0x82, 0x01, 0xC2, 0x00, 0x40, 0x00, 0x20, 0x00, 0x30, 0x00, 0x18, 0x00, 0x08, 0x02, 0x0C, 0x02,
  0x02, 0x02, 0x9E, 0x07, 0xEA, 0x01, 0x00, 0x00, 0x00, 0x00, 0x00, 0x00, 0x00, 0x00, 0x00, 0x00,
  0x00, 0x00, 0x00, 0x00]

def digit1Bits : List UInt8 := [
  0x00, 0x00, 0x00, 0x00, 0x00, 0x00, 0x00, 0x00, 0x00, 0x00, 0x30, 0x00, 0x3E, 0x00, 0x22, 0x00,
  0x20, 0x00, 0x30, 0x00, 0x20, 0x00, 0x30, 0x00, 0x20, 0x00, 0x30, 0x00, 0x30, 0x00, 0x20, 0x00,
  0x30, 0x00, 0xBA, 0x01, 0xEA, 0x01, 0x00, 0x00, 0x00, 0x00, 0x00, 0x00, 0x00, 0x00, 0x00, 0x00,
  0x00, 0x00, 0x00, 0x00]

def digit2Bits : List UInt8 := [
  0x00, 0x00, 0x00, 0x00, 0x00, 0x00, 0x00, 0x00, 0x00, 0x00, 0x7C, 0x00, 0xC6, 0x00, 0x82, 0x01,
  0x00, 0x01, 0x80, 0x01, 0x80, 0x00, 0x40, 0x00, 0x60, 0x00, 0x30, 0x00, 0x08, 0x00, 0x0C, 0x00,
  0x03, 0x01, 0xFB, 0x01, 0xAB, 0x00, 0x00, 0x00, 0x00, 0x00, 0x00, 0x00, 0x00, 0x00, 0x00, 0x00,
  0x00, 0x00, 0x00, 0x00]

def digit3Bits : List UInt8 := [
  0x00, 0x00, 0x00, 0x00, 0x00, 0x00, 0x00, 0x00, 0x00, 0x00, 0x78, 0x00, 0xEE, 0x00, 0x00, 0x01,
  0x00, 0x01, 0x80, 0x01, 0xE0, 0x00, 0xF0, 0x00, 0x80, 0x01, 0x00, 0x01, 0x00, 0x02, 0x00, 0x03,
  0x82, 0x01, 0xFE, 0x00, 0x28, 0x00, 0x00, 0x00, 0x00, 0x00, 0x00, 0x00, 0x00, 0x00, 0x00, 0x00,
  0x00, 0x00, 0x00, 0x00]

def digit4Bits : List UInt8 := [
  0x00, 0x00, 0x00, 0x00, 0x00, 0x00, 0x00, 0x00, 0x00, 0x00, 0xC0, 0x00, 0xE0, 0x01, 0xA0, 0x01,
  0x90, 0x00, 0x90, 0x01, 0x88, 0x00, 0x8C, 0x01, 0x84, 0x01, 0x86, 0x00, 0xFF, 0x03, 0xA0, 0x01,
  0x80, 0x01, 0xC0, 0x01, 0xC0, 0x01, 0x00, 0x00, 0x00, 0x00, 0x00, 0x00, 0x00, 0x00, 0x00, 0x00,
  0x00, 0x00, 0x00, 0x00]

def digit5Bits : List UInt8 := [
  0x00, 0x00, 0x00, 0x00, 0x00, 0x00, 0x00, 0x00, 0x08, 0x00, 0xFC, 0x01, 0x04, 0x00, 0x04, 0x00,
  0x04, 0x00, 0x04, 0x00, 0xFC, 0x00, 0x8C, 0x03, 0x00, 0x02, 0x00, 0x06, 0x00, 0x02, 0x00, 0x03,
  0x02, 0x01, 0xFE, 0x01, 0x30, 0x00, 0x00, 0x00, 0x00, 0x00, 0x00, 0x00, 0x00, 0x00, 0x00, 0x00,
  0x00, 0x00, 0x00, 0x00]

def digit6Bits : List UInt8 := [
  0x00, 0x00, 0x00, 0x00, 0x00, 0x00, 0x00, 0x00, 0x00, 0x00, 0xE0, 0x03, 0x38, 0x00, 0x08, 0x00,
  0x04, 0x00, 0x06, 0x00, 0x06, 0x00, 0xFA, 0x00, 0x8E, 0x01, 0x06, 0x03, 0x02, 0x02, 0x04, 0x03,
  0x04, 0x01, 0xF8, 0x01, 0x20, 0x00, 0x00, 0x00, 0x00, 0x00, 0x00, 0x00, 0x00, 0x00, 0x00, 0x00,
  0x00, 0x00, 0x00, 0x00]

def digit7Bits : List UInt8 := [
  0x00, 0x00, 0x00, 0x00, 0x00, 0x00, 0x00, 0x00, 0x60, 0x00, 0xFE, 0x01, 0x02, 0x03, 0x02, 0x03,
  0x00, 0x01, 0x80, 0x01, 0x80, 0x00, 0xC0, 0x00, 0xC0, 0x00, 0x40, 0x00, 0x40, 0x00, 0x60, 0x00,
  0x60, 0x00, 0x20, 0x00, 0x00, 0x00, 0x00, 0x00, 0x00, 0x00, 0x00, 0x00, 0x00, 0x00, 0x00, 0x00,
  0x00, 0x00, 0x00, 0x00]

def digit8Bits : List UInt8 := [
  0x00, 0x00, 0x00, 0x00, 0x00, 0x00, 0x00, 0x00, 0x00, 0x00, 0x78, 0x00, 0xCC, 0x01, 0x06, 0x01,
  0x02, 0x03, 0x06, 0x01, 0xCC, 0x00, 0xFC, 0x00, 0xCC, 0x01, 0x02, 0x01, 0x03, 0x01, 0x02, 0x03,
  0x86, 0x01, 0xFC, 0x00, 0x20, 0x00, 0x00, 0x00, 0x00, 0x00, 0x00, 0x00, 0x00, 0x00, 0x00, 0x00,
  0x00, 0x00, 0x00, 0x00]

def digit9Bits : List UInt8 := [
  0x00, 0x00, 0x00, 0x00, 0x00, 0x00, 0x00, 0x00, 0x00, 0x00, 0x78, 0x00, 0xCC, 0x01, 0x06, 0x01,
  0x02, 0x02, 0x03, 0x02, 0x06, 0x03, 0x86, 0x03, 0xFC, 0x03, 0x20, 0x02, 0x00, 0x03, 0x80, 0x01,
  0xC0, 0x00, 0x74, 0x00, 0x1C, 0x00, 0x00, 0x00, 0x00, 0x00, 0x00, 0x00, 0x00, 0x00, 0x00, 0x00,
  0x00, 0x00, 0x00, 0x00]

def digit0Bits : List UInt8 := [
  0x00, 0x00, 0x00, 0x00, 0x00, 0x00, 0x00, 0x00, 0x00, 0x00, 0xF8, 0x00, 0xCC, 0x01, 0x04, 0x03,
  0x06, 0x02, 0x02, 0x02, 0x02, 0x06, 0x03, 0x02, 0x02, 0x02, 0x02, 0x06, 0x06, 0x02, 0x06, 0x03,
  0x0C, 0x01, 0xF8, 0x01, 0x60, 0x00, 0x00, 0x00, 0x00, 0x00, 0x00, 0x00, 0x00, 0x00, 0x00, 0x00,
  0x00, 0x00, 0x00, 0x00]

def spaceBits : List UInt8 := List.replicate ZBits.length 0

/-- `to_pixels`: the bitmap of a character, if it has one. -/
def toPixels (c : UInt8) : Option (List UInt8) :=
  match Char.ofNat c.toNat with
  | ' ' => some spaceBits
  | 'a' => some aBits
  | 'b' => some bBits
  | 'c' => some cBits
  | 'd' => some dBits
  | 'e' => some eBits
  | 'f' => some fBits
  | 'g' => some gBits
  | 'h' => some hBits
  | 'i' => some iBits
  | 'j' => some jBits
  | 'k' => some kBits
  | 'l' => some lBits
  | 'm' => some mBits
  | 'n' => some nBits
  | 'o' => some oBits
  | 'p' => some pBits
  | 'q' => some qBits
  | 'r' => some rBits
  | 's' => some sBits
  | 't' => some tBits
  | 'u' => some uBits
  | 'v' => some vBits
  | 'w' => some wBits
  | 'x' => some xBits
  | 'y' => some yBits
  | 'z' => some zBits
  | 'A' => some ABits
  | 'B' => some BBits
  | 'C' => some CBits
  | 'D' => some DBits
  | 'E' => some EBits
  | 'F' => some FBits
  | 'G' => some GBits
  | 'H' => some HBits
  | 'I' => some IBits
  | 'J' => some JBits
  | 'K' => some KBits
  | 'L' => some LBits
  | 'M' => some MBits
  | 'N' => some NBits
  | 'O' => some OBits
  | 'P' => some PBits
  | 'Q' => some QBits
  | 'R' => some RBits
  | 'S' => some SBits
  | 'T' => some TBits
  | 'U' => some UBits
  | 'V' => some VBits
  | 'W' => some WBits
  | 'X' => some XBits
  | 'Y' => some YBits
  | 'Z' => some ZBits
  | '1' => some digit1Bits
  | '2' => some digit2Bits
  | '3' => some digit3Bits
  | '4' => some digit4Bits
  | '5' => some digit5Bits
  | '6' => some digit6Bits
  | '7' => some digit7Bits
  | '8' => some digit8Bits
  | '9' => some digit9Bits
  | '0' => some digit0Bits
  | _ => none

end Camkes.Aeroplage
